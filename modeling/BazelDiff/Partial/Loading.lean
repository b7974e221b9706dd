/-
# What the graph reads from the workspace while it loads

The content of a local repository, or of a file a repository rule names by label, is
folded into the rule's definition and so into the fixed part of every recipe. The
recipes carry the list of such workspace paths.
-/

import BazelDiff.Options
import BazelDiff.Target

namespace BazelDiff

open Text

/-- The workspace directory as it was given and as the file system resolves it, when it
does. -/
structure Workspace where
  path : String
  canonical : Option String := none

/-- The value of a workspace path without its `%workspace%` marker. -/
def workspaceRelative (value : String) : String :=
  ((stripPrefix "%workspace%/" value).or (stripPrefix "%workspace%" value)).getD value

/-- The components of a path below the workspace, when it does not lie elsewhere. -/
def relativeComponents (workspace : Workspace) (path : String) :
    Option (List UnixPath.Component) :=
  if UnixPath.isAbsolute path then
    (UnixPath.stripBase workspace.path path).or
      (workspace.canonical.bind fun canonical => UnixPath.stripBase canonical path)
  else some (UnixPath.components path)

/-- One component of the walk that resolves `.` and `..` textually. -/
def walkComponent (parts : List String) : UnixPath.Component → Option (List String)
  | .normal part => some (parts ++ [part])
  | .curDir => some parts
  | .parentDir => if parts.isEmpty then none else some parts.dropLast
  | .rootDir => none

/-- The directories a workspace path goes through, as git names them. -/
def normalizeWorkspaceParts (workspace : Workspace) (value : String) : Option (List String) := do
  let components ← relativeComponents workspace (workspaceRelative value)
  components.foldlM walkComponent []

/-- A workspace path as git names it: `%workspace%/x`, `./x`, `a/../x` and an absolute path
inside the workspace all become `x`. `none` for a path that leaves the workspace. -/
def normalizeWorkspacePath (workspace : Workspace) (value : String) : Option String :=
  (normalizeWorkspaceParts workspace value).map (join "/")

/-- The slots of an attribute that can name targets. -/
def attributeLabelValues (attr : Attribute) : List String :=
  attr.stringValue.toList ++ attr.stringListValue ++ attr.labelDictUnaryValue.map (·.2) ++
    attr.labelKeyedStringDictValue.map (·.1) ++ attr.labelListDictValue.flatMap (·.2) ++
    attr.stringListDictValue.flatMap (·.2)

/-- Every main-repository label among the attributes' values. -/
def attributeMainRepoLabels (attributes : List Attribute) : List String :=
  attributes.flatMap fun attr =>
    (attributeLabelValues attr ++ attr.stringDictValue.map (·.2) ++
      attr.labelDictUnaryValue.map (·.1)).filter fun value => (mainRepoPath value).isSome

/-- The `path` attribute of a `local_repository`. -/
def localRepositoryPath (rule : Rule) : Option String :=
  if rule.ruleClass = "local_repository" then
    (rule.attributes.find? fun attr => attr.name = "path").bind (·.stringValue)
  else none

/-- The workspace paths a repository rule's definition digest folds in. -/
def ruleLoadingInputs (rule : Rule) (workspace : Workspace) : List String :=
  if !hasPrefix "//external:" rule.name then []
  else
    ((localRepositoryPath rule).bind (normalizeWorkspacePath workspace)).toList ++
      ((attributeMainRepoLabels rule.attributes).filterMap labelPath).filter (· ≠ "")

/-- The main-repository paths one marker file's `FILE:` lines name. -/
def markerFileInputs (text : String) : List String :=
  ((((lines text).filterMap (stripPrefix "FILE:")).filterMap fun rest =>
    (split ' ' rest).head?).filter isMainRepo).filterMap labelPath |>.filter (· ≠ "")

/-- The main-repository files the repository marker files record as read by a fetched
repository rule, from the texts of the marker files that can be read. -/
def markerLoadingInputs (markers : List String) : List String :=
  markers.flatMap markerFileInputs

end BazelDiff
