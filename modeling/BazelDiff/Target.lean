/-
# The records a Bazel query returns

The part of the query protocol the hasher reads. An attribute also carries the
wire bytes of the fields this program never inspects, so that two attributes that
differ only there stay different; turning an attribute into bytes is the protobuf
library's business and stays a parameter of the functions that hash attributes.
-/

import BazelDiff.Label

namespace BazelDiff

/-- An attribute of a rule or of a repository record. -/
structure Attribute where
  name : String
  stringValue : Option String := none
  stringListValue : List String := []
  stringDictValue : List (String × String) := []
  labelDictUnaryValue : List (String × String) := []
  labelKeyedStringDictValue : List (String × String) := []
  labelListDictValue : List (String × List String) := []
  stringListDictValue : List (String × List String) := []
  /-- The encoded fields nothing here reads (integers, booleans, selectors, ...). -/
  uninspected : List UInt8 := []
  deriving DecidableEq

structure ConfiguredRuleInput where
  label : Option String := none
  configurationChecksum : Option String := none
  deriving DecidableEq

structure Rule where
  name : String
  ruleClass : String := ""
  attributes : List Attribute := []
  ruleInput : List String := []
  configuredRuleInput : List ConfiguredRuleInput := []
  skylarkEnvironmentHashCode : Option String := none
  instantiationStack : List String := []
  deriving DecidableEq

structure SourceFile where
  name : String
  subinclude : List String := []
  deriving DecidableEq

structure GeneratedFile where
  name : String
  generatingRule : String
  deriving DecidableEq

structure PackageGroup where
  name : String
  containedPackage : List String := []
  includedPackageGroup : List String := []
  deriving DecidableEq

structure EnvironmentGroup where
  name : String
  deriving DecidableEq

/-- `target::Discriminator`. -/
inductive Discriminator
  | rule
  | sourceFile
  | generatedFile
  | packageGroup
  | environmentGroup
  deriving DecidableEq

/-- One query record. The discriminator says which of the optional parts counts. -/
structure Target where
  type : Discriminator
  rule : Option Rule := none
  sourceFile : Option SourceFile := none
  generatedFile : Option GeneratedFile := none
  packageGroup : Option PackageGroup := none
  environmentGroup : Option EnvironmentGroup := none
  deriving DecidableEq

def targetName (target : Target) : Option String :=
  match target.type with
  | .rule => target.rule.map (·.name)
  | .sourceFile => target.sourceFile.map (·.name)
  | .generatedFile => target.generatedFile.map (·.name)
  | .packageGroup => target.packageGroup.map (·.name)
  | .environmentGroup => target.environmentGroup.map (·.name)

/-- Keep the first record of every name, and none without a name. -/
def deduplicateTargets (targets : List Target) : List Target :=
  (targets.foldl keepFirst ([], [])).1
where
  /-- The records kept so far and the names seen. -/
  keepFirst (state : List Target × List String) (target : Target) : List Target × List String :=
    match targetName target with
    | some name =>
        if name ∈ state.2 then state else (state.1 ++ [target], name :: state.2)
    | none => state

/-- A rule or generated file carried by its configured instance: the edge encoding of
`configured_rule_input`. -/
def encodeConfiguredInput (input : ConfiguredRuleInput) : String :=
  match input.configurationChecksum with
  | some checksum =>
      if checksum ≠ "" then configuredKey (input.label.getD "") checksum
      else input.label.getD ""
  | none => input.label.getD ""

/-- A repository target's inputs when they are shared by all hubs of one extension. -/
structure RepositoryInputGroup where
  extension : String
  labels : List String
  deriving DecidableEq

end BazelDiff
