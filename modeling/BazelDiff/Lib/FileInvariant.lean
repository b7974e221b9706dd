/-
# What programs keep true of the files they share

An invariant of files says which bytes each path may hold. A program minds it when it writes no
other bytes, counting on the invariant for what it reads, and moves a file only to where its
bytes may be. Whoever steps such a program, and whatever minds the invariant between its steps,
the files keep it, and what the program ends in is what it was shown to end in.
-/

import BazelDiff.Lib.FileProgram

namespace Files

/-- Every file that can be read has bytes its path may hold. -/
def Holds (P : String → List UInt8 → Prop) (files : Files) : Prop :=
  ∀ path bytes, files.read path = some bytes → P path bytes

@[simp]
theorem read_set_self (files : Files) (path : String) (content : Option (List UInt8)) :
    (files.set path (.file content)).read path = content := by
  rw [read, set_node_self]

@[simp]
theorem read_set_absent (files : Files) (path : String) :
    (files.set path .absent).read path = none := by
  rw [read, set_node_self]

theorem read_set_of_ne (files : Files) {path other : String} (h : other ≠ path) (node : Node) :
    (files.set path node).read other = files.read other := by
  rw [read, read, set_node_of_ne files h]

/-- A program reads what is there, at a path that names a file. -/
theorem set_node_read {files : Files} {source : String} (h : files.isFile source = true) :
    files.node source = .file (files.read source) := by
  obtain ⟨content, hcontent⟩ := isFile_iff.mp h
  rw [read, hcontent]

namespace Holds

variable {P : String → List UInt8 → Prop} {files : Files}

theorem set_file (h : files.Holds P) {path : String} {content : Option (List UInt8)}
    (hcontent : ∀ bytes, content = some bytes → P path bytes) :
    (files.set path (.file content)).Holds P := by
  intro other bytes hread
  by_cases hother : other = path
  · subst hother
    rw [read_set_self] at hread
    exact hcontent bytes hread
  · rw [read_set_of_ne files hother] at hread
    exact h other bytes hread

theorem set_absent (h : files.Holds P) (path : String) : (files.set path .absent).Holds P := by
  intro other bytes hread
  by_cases hother : other = path
  · subst hother
    rw [read_set_absent] at hread
    cases hread
  · rw [read_set_of_ne files hother] at hread
    exact h other bytes hread

theorem write (h : files.Holds P) {path : String} {bytes : List UInt8} (hbytes : P path bytes)
    {written : Files} (hwritten : files.write path bytes = some written) : written.Holds P := by
  rw [Files.write] at hwritten
  split_ifs at hwritten
  cases hwritten
  apply h.set_file
  intro bytes' hsome
  cases hsome
  exact hbytes

theorem rename (h : files.Holds P) {source target : String}
    (hmoved : ∀ bytes, P source bytes → P target bytes) {renamed : Files}
    (hrenamed : files.rename source target = some renamed) : renamed.Holds P := by
  rw [Files.rename] at hrenamed
  split_ifs at hrenamed with hcan
  cases hrenamed
  rw [set_node_read hcan.2.1]
  apply (h.set_absent source).set_file
  intro bytes hread
  exact hmoved bytes (h source bytes hread)

/-- Files may go. -/
theorem remove (h : files.Holds P) (path : String) : (files.remove path).Holds P := by
  rcases remove_cases files path with hsame | ⟨-, hgone⟩
  · rw [hsame]
    exact h
  · rw [hgone]
    exact h.set_absent path

end Holds

end Files

namespace Prog

variable {α : Type}

/-- The program keeps an invariant of files that holds, and ends in one of some results. -/
inductive Minds (P : String → List UInt8 → Prop) (Q : α → Prop) : Prog α → Prop
  | done {result : α} (h : Q result) : Minds P Q (.done result)
  | isFile {path : String} {next : Bool → Prog α} (hnext : ∀ found, Minds P Q (next found)) :
      Minds P Q (.isFile path next)
  | read {path : String} {next : Option (List UInt8) → Prog α}
      (hnext : ∀ content, (∀ bytes, content = some bytes → P path bytes) →
        Minds P Q (next content)) : Minds P Q (.read path next)
  | touch {path : String} {next : Prog α} (hnext : Minds P Q next) : Minds P Q (.touch path next)
  | write {path : String} {bytes : List UInt8} {next : Bool → Prog α} (hbytes : P path bytes)
      (hnext : ∀ written, Minds P Q (next written)) : Minds P Q (.write path bytes next)
  | rename {source target : String} {next : Bool → Prog α}
      (hmoved : ∀ bytes, P source bytes → P target bytes)
      (hnext : ∀ renamed, Minds P Q (next renamed)) : Minds P Q (.rename source target next)

namespace Minds

variable {P : String → List UInt8 → Prop} {Q : α → Prop} {program : Prog α} {files : Files}

theorem result {result : α} (h : Minds P Q (.done result)) : Q result := by
  cases h with
  | done h => exact h

/-- One operation keeps the invariant, and leaves a program that minds it. -/
theorem step (h : Minds P Q program) (hfiles : files.Holds P) :
    Minds P Q (program.step files).1 ∧ (program.step files).2.Holds P := by
  cases h with
  | done h => exact ⟨.done h, hfiles⟩
  | isFile hnext => exact ⟨hnext _, hfiles⟩
  | @read path next hnext => exact ⟨hnext _ (hfiles path), hfiles⟩
  | touch hnext => exact ⟨hnext, hfiles⟩
  | @write path bytes next hbytes hnext =>
      rw [Prog.step]
      cases hwritten : files.write path bytes with
      | none => exact ⟨hnext false, hfiles⟩
      | some written => exact ⟨hnext true, hfiles.write hbytes hwritten⟩
  | @rename source target next hmoved hnext =>
      rw [Prog.step]
      cases hrenamed : files.rename source target with
      | none => exact ⟨hnext false, hfiles⟩
      | some renamed => exact ⟨hnext true, hfiles.rename hmoved hrenamed⟩

end Minds

end Prog
