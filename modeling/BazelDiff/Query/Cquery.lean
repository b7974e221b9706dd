/-
# Decoding a cquery stream

A configured result carries its configuration inline, as a checksum, and by an id into
a table that may arrive after the results that use it. The decoder names a result at
once when it can and otherwise keeps it until the stream ends. What it yields is the
results, each named by its own configuration, whatever the order of the messages was.
-/

import BazelDiff.Target
import Mathlib.Data.List.Perm.Basic
import Std.Data.ExtTreeMap

namespace BazelDiff

/-- `NULL_CONFIGURATION_CHECKSUM`: what Bazel reports for the null configuration. -/
def nullConfigurationChecksum : String := "null"

def nonNullChecksum (checksum : String) : Option String :=
  if checksum ≠ "" ∧ checksum ≠ nullConfigurationChecksum then some checksum else none

/-- One entry of the configuration table. -/
structure Configuration where
  id : Nat
  checksum : String
  deriving DecidableEq

structure ConfiguredTarget where
  target : Option Target
  /-- The inline configuration. -/
  configuration : Option Configuration := none
  configurationId : Nat := 0
  deriving DecidableEq

/-- One message of a cquery stream. -/
structure CqueryResult where
  results : List ConfiguredTarget := []
  configurations : List Configuration := []

def packageGroupRule (group : PackageGroup) : Rule :=
  { name := group.name
    ruleClass := "package_group"
    attributes := [{ name := "packages", stringListValue := group.containedPackage }]
    ruleInput := group.includedPackageGroup }

/-- Package groups are hashed as rules, and environment groups are not supported. -/
def lowerTarget (target : Target) : Option Target :=
  match target.type with
  | .rule | .sourceFile | .generatedFile => some target
  | .packageGroup =>
      target.packageGroup.map fun group =>
        { target with type := .rule, rule := some (packageGroupRule group), packageGroup := none }
  | .environmentGroup => none

/-- Names a rule or generated file by its configured identity. Source files are never
configured. -/
def configureTarget (target : Target) (checksum : String) : Target :=
  match target.type with
  | .rule =>
      { target with
        rule := target.rule.map fun rule => { rule with name := configuredKey rule.name checksum } }
  | .generatedFile =>
      { target with
        generatedFile := target.generatedFile.map fun file =>
          { file with
            name := configuredKey file.name checksum
            generatingRule := configuredKey file.generatingRule checksum } }
  | _ => target

structure CqueryDecoder where
  targets : List Target := []
  configurations : Std.ExtTreeMap Nat String := ∅
  /-- Results that wait for the table. -/
  pending : List (Target × Nat) := []

namespace CqueryDecoder

variable (transform : Target → Target)

/-- A result named by a checksum, if it is of a kind that is kept. -/
def named (target : Target) (checksum : Option String) : Option Target :=
  (lowerTarget target).map fun target =>
    transform (match checksum with
      | some checksum => configureTarget target checksum
      | none => target)

def accept (decoder : CqueryDecoder) (target : Target) (checksum : Option String) :
    CqueryDecoder :=
  { decoder with targets := decoder.targets ++ (named transform target checksum).toList }

/-- File one entry of the table. -/
def pushConfiguration (decoder : CqueryDecoder) (configuration : Configuration) : CqueryDecoder :=
  match nonNullChecksum configuration.checksum with
  | some checksum =>
      { decoder with
        configurations := decoder.configurations.insert configuration.id checksum }
  | none => decoder

/-- Name one result, or let it wait. -/
def pushResult (decoder : CqueryDecoder) (configured : ConfiguredTarget) : CqueryDecoder :=
  match configured.target with
  | none => decoder
  | some target =>
      let inline := configured.configuration.bind fun configuration =>
        nonNullChecksum configuration.checksum
      match inline.or decoder.configurations[configured.configurationId]? with
      | some checksum => decoder.accept transform target (some checksum)
      | none =>
          if configured.configurationId ≠ 0 then
            { decoder with pending := decoder.pending ++ [(target, configured.configurationId)] }
          else decoder.accept transform target none

def push (decoder : CqueryDecoder) (result : CqueryResult) : CqueryDecoder :=
  result.results.foldl (pushResult transform)
    (result.configurations.foldl pushConfiguration decoder)

def finish (decoder : CqueryDecoder) : List Target :=
  (decoder.pending.foldl (fun decoder waiting =>
    decoder.accept transform waiting.1 decoder.configurations[waiting.2]?) decoder).targets

end CqueryDecoder

/-- Decode the messages of a stream. A result that is not streamed is one message. -/
def decodeCqueryStream (transform : Target → Target) (messages : List CqueryResult) :
    List Target :=
  (messages.foldl (CqueryDecoder.push transform) {}).finish transform

/-! ## What a result is named by -/

section Naming

/-- The checksum the table of a whole stream gives an id. -/
def tableChecksum (configurations : List Configuration) (id : Nat) : Option String :=
  (configurations.find? fun configuration => configuration.id = id).bind fun configuration =>
    nonNullChecksum configuration.checksum

/-- The checksum that names a result: its inline checksum, else its id's, else none. -/
def namingChecksum (configurations : List Configuration) (configured : ConfiguredTarget) :
    Option String :=
  (configured.configuration.bind fun configuration => nonNullChecksum configuration.checksum).or
    (tableChecksum configurations configured.configurationId)

/-- The target a result becomes. -/
def namedTarget (transform : Target → Target) (configurations : List Configuration)
    (configured : ConfiguredTarget) : Option Target :=
  configured.target.bind fun target =>
    CqueryDecoder.named transform target (namingChecksum configurations configured)

/-- A table with no entry for id zero and one checksum for each id. -/
structure WellFormedTable (configurations : List Configuration) : Prop where
  id_ne_zero : ∀ configuration ∈ configurations, configuration.id ≠ 0
  checksum_unique : ∀ c ∈ configurations, ∀ c' ∈ configurations, c.id = c'.id →
    c.checksum = c'.checksum

end Naming

/-! ## The decoder names every result once -/

namespace CqueryDecoder

variable {transform : Target → Target} {table : List Configuration}

/-- A decoder inside a stream: what it filed agrees with the table of the whole stream, and what
it yielded and what waits are the results so far, named by that table. -/
structure Inside (transform : Target → Target) (table : List Configuration)
    (entries : List Configuration) (results : List ConfiguredTarget) (decoder : CqueryDecoder) :
    Prop where
  known : ∀ id checksum, decoder.configurations[id]? = some checksum →
    tableChecksum table id = some checksum
  filed : ∀ entry ∈ entries, decoder.configurations[entry.id]? = tableChecksum table entry.id
  yields : (decoder.targets ++ decoder.pending.filterMap fun waiting =>
    named transform waiting.1 (tableChecksum table waiting.2)).Perm
      (results.filterMap (namedTarget transform table))

theorem tableChecksum_of_mem (htable : WellFormedTable table) {entry : Configuration}
    (hentry : entry ∈ table) : tableChecksum table entry.id = nonNullChecksum entry.checksum := by
  rw [tableChecksum]
  cases hfound : table.find? fun configuration => configuration.id = entry.id with
  | none =>
      have hne := List.find?_eq_none.mp hfound entry hentry
      simp at hne
  | some found =>
      have hid : found.id = entry.id := by simpa using List.find?_some hfound
      rw [Option.bind_some, htable.checksum_unique found (List.mem_of_find?_eq_some hfound) entry
        hentry hid]

theorem pushConfiguration_inside (htable : WellFormedTable table) {entries : List Configuration}
    {results : List ConfiguredTarget} {decoder : CqueryDecoder} {entry : Configuration}
    (hentry : entry ∈ table) (h : Inside transform table entries results decoder) :
    Inside transform table (entries ++ [entry]) results (decoder.pushConfiguration entry) := by
  have hchecksum := tableChecksum_of_mem htable hentry
  rw [pushConfiguration]
  cases hnonNull : nonNullChecksum entry.checksum with
  | none =>
      rw [hnonNull] at hchecksum
      have hunfiled : decoder.configurations[entry.id]? = none := by
        cases hfiled : decoder.configurations[entry.id]? with
        | none => rfl
        | some checksum => exact absurd (h.known _ _ hfiled) (by simp [hchecksum])
      refine ⟨h.known, fun e he => ?_, h.yields⟩
      rcases List.mem_append.mp he with he | he
      · exact h.filed e he
      · rw [List.mem_singleton.mp he, hunfiled, hchecksum]
  | some checksum =>
      rw [hnonNull] at hchecksum
      have hinsert : ∀ id, (decoder.configurations.insert entry.id checksum)[id]? =
          if entry.id = id then tableChecksum table id else decoder.configurations[id]? := by
        intro id
        rw [Std.ExtTreeMap.getElem?_insert]
        by_cases hid : entry.id = id
        · simp [← hid, hchecksum]
        · simp [hid]
      constructor
      · intro id found hfound
        rw [hinsert] at hfound
        split_ifs at hfound with hid
        · exact hfound
        · exact h.known id found hfound
      · intro e he
        rw [hinsert]
        split_ifs with hid
        · rfl
        · rcases List.mem_append.mp he with he | he
          · exact h.filed e he
          · exact absurd (congrArg Configuration.id (List.mem_singleton.mp he)).symm hid
      · exact h.yields

/-- The id of no configuration names nothing. -/
theorem tableChecksum_zero (htable : WellFormedTable table) : tableChecksum table 0 = none := by
  rw [tableChecksum]
  cases hfound : table.find? fun configuration => configuration.id = 0 with
  | none => rfl
  | some found =>
      have hid : found.id = 0 := by simpa using List.find?_some hfound
      exact absurd hid (htable.id_ne_zero found (List.mem_of_find?_eq_some hfound))

/-- An item that joins the first of two parts joins the whole. -/
theorem perm_append_insert {α : Type} {front back whole extra : List α}
    (h : (front ++ back).Perm whole) : (front ++ extra ++ back).Perm (whole ++ extra) := by
  calc (front ++ extra ++ back).Perm (front ++ (back ++ extra)) := by
        rw [List.append_assoc]
        exact List.Perm.append_left front List.perm_append_comm
    _ = front ++ back ++ extra := (List.append_assoc _ _ _).symm
    _ |>.Perm (whole ++ extra) := h.append_right extra

theorem pushResult_inside (htable : WellFormedTable table) {entries : List Configuration}
    {results : List ConfiguredTarget} {decoder : CqueryDecoder} (configured : ConfiguredTarget)
    (h : Inside transform table entries results decoder) :
    Inside transform table entries (results ++ [configured])
      (decoder.pushResult transform configured) := by
  rw [pushResult]
  cases htarget : configured.target with
  | none =>
      refine ⟨h.known, h.filed, ?_⟩
      rw [List.filterMap_append]
      simpa [namedTarget, htarget] using h.yields
  | some target =>
      have hlast : (results ++ [configured]).filterMap (namedTarget transform table) =
          results.filterMap (namedTarget transform table) ++
            (named transform target (namingChecksum table configured)).toList := by
        rw [List.filterMap_append, List.filterMap_cons, namedTarget, htarget, Option.bind_some]
        cases named transform target (namingChecksum table configured) <;> rfl
      have haccept : ∀ checksum, namingChecksum table configured = checksum →
          Inside transform table entries (results ++ [configured])
            (decoder.accept transform target checksum) := by
        rintro checksum rfl
        refine ⟨h.known, h.filed, ?_⟩
        rw [hlast]
        exact perm_append_insert h.yields
      dsimp only
      cases hinline : configured.configuration.bind fun configuration =>
          nonNullChecksum configuration.checksum with
      | some checksum =>
          apply haccept
          rw [namingChecksum, hinline]
          rfl
      | none =>
          have hnaming : namingChecksum table configured =
              tableChecksum table configured.configurationId := by
            rw [namingChecksum, hinline]
            rfl
          rw [Option.none_or]
          cases hfiled : decoder.configurations[configured.configurationId]? with
          | some checksum =>
              apply haccept
              rw [hnaming, h.known _ _ hfiled]
          | none =>
              dsimp only
              split_ifs with hid
              · refine ⟨h.known, h.filed, ?_⟩
                rw [hlast, hnaming, List.filterMap_append, ← List.append_assoc,
                  List.filterMap_cons]
                have hyields := h.yields.append_right
                  (named transform target (tableChecksum table configured.configurationId)).toList
                cases hnamed : named transform target
                    (tableChecksum table configured.configurationId) with
                | none => simpa [hnamed] using hyields
                | some target => simpa [hnamed] using hyields
              · apply haccept
                rw [hnaming, of_not_not hid, tableChecksum_zero htable]

theorem push_inside (htable : WellFormedTable table) {entries : List Configuration}
    {results : List ConfiguredTarget} {decoder : CqueryDecoder} {message : CqueryResult}
    (hmessage : ∀ entry ∈ message.configurations, entry ∈ table)
    (h : Inside transform table entries results decoder) :
    Inside transform table (entries ++ message.configurations) (results ++ message.results)
      (decoder.push transform message) := by
  have htables : ∀ (more : List Configuration) (entries : List Configuration)
      (decoder : CqueryDecoder), (∀ entry ∈ more, entry ∈ table) →
      Inside transform table entries results decoder →
      Inside transform table (entries ++ more) results (more.foldl pushConfiguration decoder) := by
    intro more
    induction more with
    | nil =>
        intro entries decoder _ h
        rwa [List.append_nil]
    | cons entry rest ih =>
        intro entries decoder hmore h
        rw [List.append_cons]
        exact ih _ _ (fun e he => hmore e (List.mem_cons_of_mem _ he))
          (pushConfiguration_inside htable (hmore entry List.mem_cons_self) h)
  have hresults : ∀ (more : List ConfiguredTarget) (entries : List Configuration)
      (results : List ConfiguredTarget) (decoder : CqueryDecoder),
      Inside transform table entries results decoder →
      Inside transform table entries (results ++ more)
        (more.foldl (pushResult transform) decoder) := by
    intro more
    induction more with
    | nil =>
        intro entries results decoder h
        rwa [List.append_nil]
    | cons configured rest ih =>
        intro entries results decoder h
        rw [List.append_cons]
        exact ih _ _ _ (pushResult_inside htable configured h)
  exact hresults _ _ _ _ (htables _ _ _ hmessage h)

/-- The decoder after a whole stream. -/
theorem run_inside (htable : WellFormedTable table) (messages : List CqueryResult)
    (hmessages : ∀ message ∈ messages, ∀ entry ∈ message.configurations, entry ∈ table) :
    Inside transform table (messages.flatMap CqueryResult.configurations)
      (messages.flatMap CqueryResult.results) (messages.foldl (push transform) {}) := by
  have hrun : ∀ (messages : List CqueryResult) (entries : List Configuration)
      (results : List ConfiguredTarget) (decoder : CqueryDecoder),
      (∀ message ∈ messages, ∀ entry ∈ message.configurations, entry ∈ table) →
      Inside transform table entries results decoder →
      Inside transform table (entries ++ messages.flatMap CqueryResult.configurations)
        (results ++ messages.flatMap CqueryResult.results)
        (messages.foldl (push transform) decoder) := by
    intro messages
    induction messages with
    | nil =>
        intro entries results decoder _ h
        simpa using h
    | cons message rest ih =>
        intro entries results decoder hmessages h
        rw [List.flatMap_cons, List.flatMap_cons, ← List.append_assoc, ← List.append_assoc]
        exact ih _ _ _ (fun m hm => hmessages m (List.mem_cons_of_mem _ hm))
          (push_inside htable (hmessages message List.mem_cons_self) h)
  have hstart : Inside transform table [] [] {} := by
    refine ⟨?_, by simp, by simp⟩
    intro id checksum hfiled
    simp at hfiled
  simpa using hrun messages [] [] {} hmessages hstart

/-- What waits is named at the end. -/
theorem finish_eq (decoder : CqueryDecoder) :
    decoder.finish transform = decoder.targets ++ decoder.pending.filterMap fun waiting =>
      named transform waiting.1 decoder.configurations[waiting.2]? := by
  have hrun : ∀ (pending : List (Target × Nat)) (current : CqueryDecoder),
      (pending.foldl (fun decoder waiting =>
        decoder.accept transform waiting.1 decoder.configurations[waiting.2]?) current).targets =
      current.targets ++ pending.filterMap fun waiting =>
        named transform waiting.1 current.configurations[waiting.2]? := by
    intro pending
    induction pending with
    | nil => simp
    | cons waiting rest ih =>
        intro current
        rw [List.foldl_cons, ih, List.filterMap_cons, accept]
        cases named transform waiting.1 current.configurations[waiting.2]? <;> simp
  exact hrun decoder.pending decoder

end CqueryDecoder

/-- A stream yields its results, each once and named by the configuration table of the whole
stream. -/
theorem decodeCqueryStream_perm_named (transform : Target → Target) (messages : List CqueryResult)
    (htable : WellFormedTable (messages.flatMap CqueryResult.configurations)) :
    (decodeCqueryStream transform messages).Perm
      ((messages.flatMap CqueryResult.results).filterMap
        (namedTarget transform (messages.flatMap CqueryResult.configurations))) := by
  have hinside := @CqueryDecoder.run_inside transform _ htable messages
    fun message hmessage entry hentry => List.mem_flatMap.mpr ⟨message, hmessage, hentry⟩
  have hfiled : ∀ id, (messages.foldl (CqueryDecoder.push transform) {}).configurations[id]? =
      tableChecksum (messages.flatMap CqueryResult.configurations) id := by
    intro id
    cases hchecksum : tableChecksum (messages.flatMap CqueryResult.configurations) id with
    | none =>
        cases hfiled : (messages.foldl (CqueryDecoder.push transform) {}).configurations[id]? with
        | none => rfl
        | some checksum => simpa [hchecksum] using hinside.known id checksum hfiled
    | some checksum =>
        obtain ⟨entry, hentry, -⟩ := Option.bind_eq_some_iff.mp hchecksum
        have hid : entry.id = id := by simpa using List.find?_some hentry
        rw [← hid, hinside.filed entry (List.mem_of_find?_eq_some hentry), hid, hchecksum]
  rw [decodeCqueryStream, CqueryDecoder.finish_eq]
  simpa only [hfiled] using hinside.yields

/-- A table in another order names the same. -/
theorem tableChecksum_perm {table table' : List Configuration} (htable : WellFormedTable table)
    (hperm : table.Perm table') : tableChecksum table = tableChecksum table' := by
  have htable' : WellFormedTable table' :=
    ⟨fun c hc => htable.id_ne_zero c (hperm.mem_iff.mpr hc), fun c hc c' hc' =>
      htable.checksum_unique c (hperm.mem_iff.mpr hc) c' (hperm.mem_iff.mpr hc')⟩
  funext id
  by_cases hid : ∃ entry ∈ table, entry.id = id
  · obtain ⟨entry, hentry, rfl⟩ := hid
    rw [CqueryDecoder.tableChecksum_of_mem htable hentry,
      CqueryDecoder.tableChecksum_of_mem htable' (hperm.mem_iff.mp hentry)]
  · have hnone : ∀ entries : List Configuration, (∀ entry ∈ entries, entry ∈ table) →
        tableChecksum entries id = none := by
      intro entries hentries
      rw [tableChecksum, List.find?_eq_none.mpr]
      · rfl
      · intro entry hentry heq
        exact hid ⟨entry, hentries entry hentry, by simpa using heq⟩
    rw [hnone table fun entry hentry => hentry,
      hnone table' fun entry hentry => hperm.mem_iff.mpr hentry]

/-- However the results and the table are ordered and cut into messages, the decoder yields the
same targets: the results, each once, named by its inline checksum, else by its id's, else bare. -/
theorem decodeCqueryStream_perm (transform : Target → Target) (results : List ConfiguredTarget)
    (table : List Configuration) (htable : WellFormedTable table) (messages : List CqueryResult)
    (hresults : (messages.flatMap CqueryResult.results).Perm results)
    (hconfigurations : (messages.flatMap CqueryResult.configurations).Perm table) :
    (decodeCqueryStream transform messages).Perm
      (results.filterMap (namedTarget transform table)) := by
  have htable' : WellFormedTable (messages.flatMap CqueryResult.configurations) :=
    ⟨fun c hc => htable.id_ne_zero c (hconfigurations.mem_iff.mp hc), fun c hc c' hc' =>
      htable.checksum_unique c (hconfigurations.mem_iff.mp hc) c'
        (hconfigurations.mem_iff.mp hc')⟩
  have hnamed : namedTarget transform (messages.flatMap CqueryResult.configurations) =
      namedTarget transform table := by
    funext configured
    rw [namedTarget, namedTarget, namingChecksum, namingChecksum,
      tableChecksum_perm htable' hconfigurations]
  have hdecoded := decodeCqueryStream_perm_named transform messages htable'
  rw [hnamed] at hdecoded
  exact hdecoded.trans (hresults.filterMap _)

/-- A stream with its table at the end: the second instance of the label waits for it. -/
theorem decodeCqueryStream_perm_late_table :
    (decodeCqueryStream id
      [{ results := [⟨some { type := .rule, rule := some { name := "//a:a" } }, none, 2⟩] },
        { results := [⟨some { type := .rule, rule := some { name := "//a:a" } },
            some ⟨1, "abc123"⟩, 1⟩] },
        { configurations := [⟨2, "def456"⟩] }]).Perm
      [{ type := .rule, rule := some { name := "//a:a|abc123" } },
        { type := .rule, rule := some { name := "//a:a|def456" } }] :=
  decodeCqueryStream_perm id
    [⟨some { type := .rule, rule := some { name := "//a:a" } }, some ⟨1, "abc123"⟩, 1⟩,
      ⟨some { type := .rule, rule := some { name := "//a:a" } }, none, 2⟩]
    [⟨2, "def456"⟩] ⟨by decide, by decide⟩ _ (List.Perm.swap _ _ _) (List.Perm.refl _)

end BazelDiff
