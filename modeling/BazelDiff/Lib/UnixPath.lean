/-
# Slash-separated paths

Paths are compared the way a Unix path type compares them: by components, after
empty pieces and inner `.` pieces have been dropped. A `..` is kept, because
what it resolves to is not a question about text. A set of paths keeps one spelling
of each, in the order of the components.
-/

import BazelDiff.Lib.Text
import Mathlib.Data.Finset.Dedup
import Mathlib.Data.Prod.Lex

namespace UnixPath

open Text

/-- One component of a path. -/
inductive Component
  | rootDir
  | curDir
  | parentDir
  | normal (name : String)
  deriving DecidableEq

def isAbsolute (path : String) : Bool :=
  hasPrefix "/" path

/-- The component a non-trivial piece between slashes stands for. -/
def ofPiece (piece : String) : Component :=
  if piece = ".." then .parentDir else .normal piece

/-- The pieces that name something: neither empty nor `.`. -/
def pieces (path : String) : List String :=
  (split '/' path).filter fun piece => piece ≠ "" ∧ piece ≠ "."

/-- The components of a path. A `.` survives only at the start of a relative path. -/
def components (path : String) : List Component :=
  let body := (pieces path).map ofPiece
  if isAbsolute path then .rootDir :: body
  else if (split '/' path).head? = some "." then .curDir :: body
  else body

/-- `path` below `base`; an absolute `path` replaces it. -/
def join (base path : String) : String :=
  if isAbsolute path then path
  else if base = "" ∨ hasSuffix "/" base then base ++ path
  else base ++ "/" ++ path

/-- The components of `path` below `base`, when it lies there. -/
def stripBase (base path : String) : Option (List Component) :=
  (components base).isPrefixOf? (components path)

/-! ## Sets of paths -/

/-- Where a component stands: the root before `.` before `..` before the names. -/
def Component.rank : Component → ℕ ×ₗ String
  | .rootDir => toLex (0, "")
  | .curDir => toLex (1, "")
  | .parentDir => toLex (2, "")
  | .normal name => toLex (3, name)

/-- What paths are ordered by. -/
def sortKey (path : String) : List (ℕ ×ₗ String) :=
  (components path).map Component.rank

/-- Put a path in its place in an ascending list, unless one with its components is there. -/
def insertPath (path : String) : List String → List String
  | [] => [path]
  | other :: rest =>
      if sortKey path < sortKey other then path :: other :: rest
      else if sortKey path = sortKey other then other :: rest
      else other :: insertPath path rest

theorem mem_insertPath {path other : String} {paths : List String}
    (h : other ∈ insertPath path paths) : other = path ∨ other ∈ paths := by
  induction paths with
  | nil => exact Or.inl (List.mem_singleton.mp h)
  | cons next rest ih =>
      rw [insertPath] at h
      split_ifs at h with hlt heq
      · exact List.mem_cons.mp h
      · exact Or.inr h
      · rcases List.mem_cons.mp h with rfl | h
        · exact Or.inr List.mem_cons_self
        · exact (ih h).imp_right (List.mem_cons_of_mem next)

theorem insertPath_ascending (path : String) {paths : List String}
    (h : paths.Pairwise (sortKey · < sortKey ·)) :
    (insertPath path paths).Pairwise (sortKey · < sortKey ·) := by
  induction paths with
  | nil => exact List.pairwise_singleton _ _
  | cons next rest ih =>
      obtain ⟨hnext, hrest⟩ := List.pairwise_cons.mp h
      rw [insertPath]
      split_ifs with hlt heq
      · apply List.pairwise_cons.mpr
        constructor
        · intro other hmem
          rcases List.mem_cons.mp hmem with rfl | hmem
          · exact hlt
          · exact hlt.trans (hnext other hmem)
        · exact h
      · exact h
      · apply List.pairwise_cons.mpr
        constructor
        · intro other hmem
          rcases mem_insertPath hmem with rfl | hmem
          · exact lt_of_le_of_ne (not_lt.mp hlt) (Ne.symm heq)
          · exact hnext other hmem
        · exact ih hrest

/-- A set of paths, in ascending order. -/
structure PathSet where
  paths : List String
  ascending : paths.Pairwise (sortKey · < sortKey ·)

namespace PathSet

def empty : PathSet := ⟨[], List.Pairwise.nil⟩

/-- Paths collected into a set: of several with the same components the last one is kept. -/
def collect (paths : List String) : PathSet where
  paths := paths.foldr insertPath []
  ascending := by
      induction paths with
      | nil => exact List.Pairwise.nil
      | cons path rest ih => exact insertPath_ascending path ih

/-- What is in a set: paths with the same components are one element. -/
def elements (m : PathSet) : Finset (List Component) :=
  (m.paths.map components).toFinset

end PathSet

end UnixPath
