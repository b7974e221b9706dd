/-
# Programs over files, one operation at a time

A program that shares its files with others is a tree of operations, each followed by what the
program does for every answer. Run alone it is a function of the files it starts with. Among
others it is stepped, and the files may change between its steps. A program is blind to some
paths when no answer it gets depends on whether a file is there; such a program ends the same
way however those files come and go.
-/

import Mathlib.Logic.Function.Basic
import Mathlib.Tactic.SplitIfs

/-- What a path names. A file may be there and not be readable. -/
inductive Node
  | absent
  | file (content : Option (List UInt8))
  | directory
  deriving DecidableEq

structure Files where
  node : String → Node
  /-- Entries can be made, replaced and removed. -/
  writable : Bool

namespace Files

def isFile (files : Files) (path : String) : Bool :=
  match files.node path with
  | .file _ => true
  | _ => false

def read (files : Files) (path : String) : Option (List UInt8) :=
  match files.node path with
  | .file content => content
  | _ => none

def set (files : Files) (path : String) (node : Node) : Files :=
  { files with node := Function.update files.node path node }

/-- Make or replace a file. A write that fails leaves what was there. -/
def write (files : Files) (path : String) (bytes : List UInt8) : Option Files :=
  if files.writable = true ∧ files.node path ≠ .directory then
    some (files.set path (.file (some bytes)))
  else none

/-- Move a file, over another one if need be. -/
def rename (files : Files) (source target : String) : Option Files :=
  if files.writable = true ∧ files.isFile source = true ∧ files.node target ≠ .directory then
    some ((files.set source .absent).set target (files.node source))
  else none

/-- Remove a file; anything else stays. -/
def remove (files : Files) (path : String) : Files :=
  if files.writable = true ∧ files.isFile path = true then files.set path .absent else files

/-- The files alike but for whether there are files at the paths. -/
structure SameBut (P : String → Prop) (f g : Files) : Prop where
  writable : f.writable = g.writable
  node : ∀ path, ¬ P path → f.node path = g.node path
  directory : ∀ path, f.node path = .directory ↔ g.node path = .directory

@[simp]
theorem set_node_self (files : Files) (path : String) (node : Node) :
    (files.set path node).node path = node := by
  show Function.update files.node path node path = node
  exact Function.update_self path node files.node

theorem set_node_of_ne (files : Files) {path other : String} (h : other ≠ path) (node : Node) :
    (files.set path node).node other = files.node other := by
  show Function.update files.node path node other = files.node other
  exact Function.update_of_ne h node files.node

theorem isFile_iff {files : Files} {path : String} :
    files.isFile path = true ↔ ∃ content, files.node path = .file content := by
  rw [isFile]
  cases files.node path <;> simp

/-- Removing a file leaves everything as it was or takes that file away. -/
theorem remove_cases (files : Files) (path : String) :
    files.remove path = files ∨
      files.isFile path = true ∧ files.remove path = files.set path .absent := by
  rw [remove]
  split_ifs with h
  · exact Or.inr ⟨h.2, rfl⟩
  · exact Or.inl rfl

namespace SameBut

variable {P : String → Prop} {f g h : Files}

theorem refl (P : String → Prop) (f : Files) : SameBut P f f where
  writable := rfl
  node _ _ := rfl
  directory _ := Iff.rfl

theorem symm (hfg : SameBut P f g) : SameBut P g f where
  writable := hfg.writable.symm
  node path hpath := (hfg.node path hpath).symm
  directory path := (hfg.directory path).symm

theorem trans (hfg : SameBut P f g) (hgh : SameBut P g h) : SameBut P f h where
  writable := hfg.writable.trans hgh.writable
  node path hpath := (hfg.node path hpath).trans (hgh.node path hpath)
  directory path := (hfg.directory path).trans (hgh.directory path)

theorem set (hfg : SameBut P f g) (path : String) (node : Node) :
    SameBut P (f.set path node) (g.set path node) where
  writable := hfg.writable
  node other hother := by
      by_cases heq : other = path
      · subst heq
        rw [set_node_self, set_node_self]
      · rw [set_node_of_ne f heq, set_node_of_ne g heq]
        exact hfg.node other hother
  directory other := by
      by_cases heq : other = path
      · subst heq
        rw [set_node_self, set_node_self]
      · rw [set_node_of_ne f heq, set_node_of_ne g heq]
        exact hfg.directory other

/-- A file at one of the paths may go. -/
theorem set_absent {path : String} (hpath : P path) (hfile : f.isFile path = true) :
    SameBut P (f.set path .absent) f where
  writable := rfl
  node other hother := by
      apply set_node_of_ne f
      rintro rfl
      exact hother hpath
  directory other := by
      by_cases heq : other = path
      · subst heq
        obtain ⟨content, hcontent⟩ := isFile_iff.mp hfile
        rw [set_node_self, hcontent]
        simp
      · rw [set_node_of_ne f heq]

theorem remove {path : String} (hpath : P path) : SameBut P (f.remove path) f := by
  rcases remove_cases f path with hsame | ⟨hfile, hgone⟩
  · rw [hsame]
    exact refl P f
  · rw [hgone]
    exact set_absent hpath hfile

theorem isFile (hfg : SameBut P f g) {path : String} (hpath : ¬ P path) :
    f.isFile path = g.isFile path := by
  rw [Files.isFile, Files.isFile, hfg.node path hpath]

theorem read (hfg : SameBut P f g) {path : String} (hpath : ¬ P path) :
    f.read path = g.read path := by
  rw [Files.read, Files.read, hfg.node path hpath]

/-- A write fails on both sides or on none. -/
theorem write (hfg : SameBut P f g) (path : String) (bytes : List UInt8) :
    (f.write path bytes = none ∧ g.write path bytes = none) ∨
      ∃ f' g', f.write path bytes = some f' ∧ g.write path bytes = some g' ∧ SameBut P f' g' := by
  have hiff : f.writable = true ∧ f.node path ≠ .directory ↔
      g.writable = true ∧ g.node path ≠ .directory := by
    rw [hfg.writable, ne_eq, ne_eq, hfg.directory path]
  rw [Files.write, Files.write]
  by_cases hf : f.writable = true ∧ f.node path ≠ .directory
  · rw [if_pos hf, if_pos (hiff.mp hf)]
    exact Or.inr ⟨_, _, rfl, rfl, hfg.set path _⟩
  · rw [if_neg hf, if_neg fun hg => hf (hiff.mpr hg)]
    exact Or.inl ⟨rfl, rfl⟩

theorem rename (hfg : SameBut P f g) {source : String} (hsource : ¬ P source) (target : String) :
    (f.rename source target = none ∧ g.rename source target = none) ∨
      ∃ f' g', f.rename source target = some f' ∧ g.rename source target = some g' ∧
        SameBut P f' g' := by
  have hiff : f.writable = true ∧ f.isFile source = true ∧ f.node target ≠ .directory ↔
      g.writable = true ∧ g.isFile source = true ∧ g.node target ≠ .directory := by
    rw [hfg.writable, hfg.isFile hsource, ne_eq, ne_eq, hfg.directory target]
  rw [Files.rename, Files.rename, hfg.node source hsource]
  by_cases hf : f.writable = true ∧ f.isFile source = true ∧ f.node target ≠ .directory
  · rw [if_pos hf, if_pos (hiff.mp hf)]
    exact Or.inr ⟨_, _, rfl, rfl, (hfg.set source _).set target _⟩
  · rw [if_neg hf, if_neg fun hg => hf (hiff.mpr hg)]
    exact Or.inl ⟨rfl, rfl⟩

end SameBut

end Files

/-- A program over files that ends in a result. -/
inductive Prog (α : Type)
  | done (result : α)
  | isFile (path : String) (next : Bool → Prog α)
  | read (path : String) (next : Option (List UInt8) → Prog α)
  /-- Mark the file as used, if there is one. -/
  | touch (path : String) (next : Prog α)
  | write (path : String) (bytes : List UInt8) (next : Bool → Prog α)
  | rename (source target : String) (next : Bool → Prog α)

namespace Prog

variable {α : Type}

/-- One operation. -/
def step : Prog α → Files → Prog α × Files
  | .done result, files => (.done result, files)
  | .isFile path next, files => (next (files.isFile path), files)
  | .read path next, files => (next (files.read path), files)
  | .touch _ next, files => (next, files)
  | .write path bytes next, files =>
      match files.write path bytes with
      | some written => (next true, written)
      | none => (next false, files)
  | .rename source target next, files =>
      match files.rename source target with
      | some renamed => (next true, renamed)
      | none => (next false, files)

/-- A program on its own. -/
def run : Prog α → Files → α × Files
  | .done result, files => (result, files)
  | .isFile path next, files => (next (files.isFile path)).run files
  | .read path next, files => (next (files.read path)).run files
  | .touch _ next, files => next.run files
  | .write path bytes next, files =>
      match files.write path bytes with
      | some written => (next true).run written
      | none => (next false).run files
  | .rename source target next, files =>
      match files.rename source target with
      | some renamed => (next true).run renamed
      | none => (next false).run files

theorem run_step (program : Prog α) (files : Files) :
    (program.step files).1.run (program.step files).2 = program.run files := by
  cases program with
  | write path bytes next =>
      rw [step, run]
      cases files.write path bytes <;> rfl
  | rename source target next =>
      rw [step, run]
      cases files.rename source target <;> rfl
  | _ => rfl

/-- No answer depends on whether there is a file at one of the paths. -/
inductive Blind (P : String → Prop) : Prog α → Prop
  | done (result : α) : Blind P (.done result)
  | isFile {path : String} {next : Bool → Prog α} (hpath : ¬ P path)
      (hnext : ∀ found, Blind P (next found)) : Blind P (.isFile path next)
  | read {path : String} {next : Option (List UInt8) → Prog α} (hpath : ¬ P path)
      (hnext : ∀ bytes, Blind P (next bytes)) : Blind P (.read path next)
  | touch {path : String} {next : Prog α} (hnext : Blind P next) : Blind P (.touch path next)
  | write {path : String} {bytes : List UInt8} {next : Bool → Prog α}
      (hnext : ∀ written, Blind P (next written)) : Blind P (.write path bytes next)
  | rename {source target : String} {next : Bool → Prog α} (hsource : ¬ P source)
      (hnext : ∀ renamed, Blind P (next renamed)) : Blind P (.rename source target next)

namespace Blind

variable {P : String → Prop} {program : Prog α} {f g : Files}

/-- A blind program takes the same step over files it cannot tell apart. -/
theorem step (hblind : Blind P program) (hfg : Files.SameBut P f g) :
    (program.step f).1 = (program.step g).1 ∧ Blind P (program.step f).1 ∧
      Files.SameBut P (program.step f).2 (program.step g).2 := by
  cases hblind with
  | done result => exact ⟨rfl, .done result, hfg⟩
  | @isFile path next hpath hnext =>
      rw [Prog.step, Prog.step, hfg.isFile hpath]
      exact ⟨rfl, hnext _, hfg⟩
  | @read path next hpath hnext =>
      rw [Prog.step, Prog.step, hfg.read hpath]
      exact ⟨rfl, hnext _, hfg⟩
  | touch hnext => exact ⟨rfl, hnext, hfg⟩
  | @write path bytes next hnext =>
      rw [Prog.step, Prog.step]
      obtain ⟨hf, hg⟩ | ⟨f', g', hf, hg, hafter⟩ := hfg.write path bytes
      · rw [hf, hg]
        exact ⟨rfl, hnext false, hfg⟩
      · rw [hf, hg]
        exact ⟨rfl, hnext true, hafter⟩
  | @rename source target next hsource hnext =>
      rw [Prog.step, Prog.step]
      obtain ⟨hf, hg⟩ | ⟨f', g', hf, hg, hafter⟩ := hfg.rename hsource target
      · rw [hf, hg]
        exact ⟨rfl, hnext false, hfg⟩
      · rw [hf, hg]
        exact ⟨rfl, hnext true, hafter⟩

end Blind

end Prog
