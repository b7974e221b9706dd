/-
# Retrievals beside the cache pruner

The pruner removes entries from the cache directory without a lock, in passes that other queries
run too. A retrieval looks whether its entry is there and then reads it, and fails when the entry
goes in between. Anywhere else a removal only turns a local hit into a miss: what a retrieval does
after the read no longer depends on which entries are there.
-/

import BazelDiff.Lib.Transition
import BazelDiff.Server.Retrieval

namespace BazelDiff.Server.Pruning

open Retrieval
open UnixPath (PathSet)

/-! ## The pruner -/

/-- An entry as the pruner finds it. -/
structure CacheEntry where
  path : String
  size : Nat
  modified : Nat

structure PruneLimits where
  maxAge : Option Nat
  maxEntries : Option Nat
  maxSize : Option Nat

/-- A pass of the pruner, one file operation at a time. -/
inductive Pass
  | done
  | cacheEntries (next : List CacheEntry → Pass)
  | remove (path : String) (next : Pass)

/-- A name with the extension `json`. -/
def IsEntry (path : String) : Prop :=
  ∃ stem, stem ≠ "" ∧ path = stem ++ ".json"

namespace Pass

def removeAll (entries : List CacheEntry) (next : Pass) : Pass :=
  entries.foldr (fun entry next => .remove entry.path next) next

end Pass

/-- Least recently modified first. -/
def byModified (entries : List CacheEntry) : List CacheEntry :=
  entries.insertionSort fun a b => a.modified ≤ b.modified

/-- The entries that go, from the oldest on, until the sizes fit. -/
def oversized (maxSize : Nat) : Nat → List CacheEntry → List CacheEntry
  | _, [] => []
  | total, entry :: rest =>
      if maxSize < total then entry :: oversized maxSize (total - entry.size) rest else []

/-- `prune_cache` after the entries that are too old have gone. The sum of the sizes wraps
around. -/
def pruneExcess (limits : PruneLimits) (entries : List CacheEntry) : Pass :=
  let entries := byModified entries
  let excess := limits.maxEntries.elim [] fun maxEntries =>
    entries.take (entries.length - maxEntries)
  let kept := entries.drop excess.length
  let large := limits.maxSize.elim [] fun maxSize =>
    oversized maxSize ((kept.map (·.size)).sum % 2 ^ 64) kept
  .removeAll excess (.removeAll large .done)

/-- `prune_cache`, started at the time `now`. -/
def pruneCache (limits : PruneLimits) (now : Nat) : Pass :=
  .cacheEntries fun entries =>
    match limits.maxAge with
    | some maxAge =>
        .removeAll ((byModified entries).filter fun entry => maxAge < now - entry.modified)
          (.cacheEntries (pruneExcess limits))
    | none => pruneExcess limits entries

/-- A pass removes nothing but entries it was shown. -/
def Pass.RemovesEntries : Pass → Prop
  | .done => True
  | .cacheEntries next =>
      ∀ entries : List CacheEntry, (∀ entry ∈ entries, IsEntry entry.path) →
        (next entries).RemovesEntries
  | .remove path next => IsEntry path ∧ next.RemovesEntries

namespace Pass

theorem RemovesEntries.removeAll {entries : List CacheEntry} {next : Pass}
    (hentries : ∀ entry ∈ entries, IsEntry entry.path) (hnext : next.RemovesEntries) :
    (removeAll entries next).RemovesEntries := by
  induction entries with
  | nil => exact hnext
  | cons entry rest ih =>
      exact ⟨hentries entry List.mem_cons_self,
        ih fun other hother => hentries other (List.mem_cons_of_mem _ hother)⟩

end Pass

theorem mem_byModified {entry : CacheEntry} {entries : List CacheEntry} :
    entry ∈ byModified entries ↔ entry ∈ entries :=
  List.mem_insertionSort _

theorem oversized_sublist (maxSize total : Nat) (entries : List CacheEntry) :
    List.Sublist (oversized maxSize total entries) entries := by
  induction entries generalizing total with
  | nil => exact List.nil_sublist []
  | cons entry rest ih =>
      rw [oversized]
      split
      · exact (ih _).cons_cons entry
      · exact List.nil_sublist _

theorem removesEntries_pruneExcess (limits : PruneLimits) {entries : List CacheEntry}
    (hentries : ∀ entry ∈ entries, IsEntry entry.path) :
    (pruneExcess limits entries).RemovesEntries := by
  have hsorted : ∀ entry ∈ byModified entries, IsEntry entry.path :=
    fun entry hentry => hentries entry (mem_byModified.mp hentry)
  apply Pass.RemovesEntries.removeAll
  · intro entry hentry
    cases hmax : limits.maxEntries with
    | none =>
        rw [hmax] at hentry
        cases hentry
    | some maxEntries =>
        rw [hmax] at hentry
        exact hsorted entry (List.mem_of_mem_take hentry)
  · apply Pass.RemovesEntries.removeAll
    · intro entry hentry
      cases hmax : limits.maxSize with
      | none =>
          rw [hmax] at hentry
          cases hentry
      | some maxSize =>
          rw [hmax] at hentry
          exact hsorted entry (List.mem_of_mem_drop ((oversized_sublist _ _ _).subset hentry))
    · trivial

theorem removesEntries_pruneCache (limits : PruneLimits) (now : Nat) :
    (pruneCache limits now).RemovesEntries := by
  intro entries hentries
  dsimp only
  split
  · apply Pass.RemovesEntries.removeAll
    · intro entry hentry
      exact hentries entry (mem_byModified.mp (List.mem_of_mem_filter hentry))
    · intro later hlater
      exact removesEntries_pruneExcess limits hlater
  · exact removesEntries_pruneExcess limits hentries

/-! ## A retrieval and any number of passes -/

structure System where
  files : Files
  retrieval : Prog Outcome
  passes : List Pass

inductive Event
  | retrieve
  | begin
  | prune (pass : Nat)

/-- One operation of one of the programs. Reading a directory is not atomic, so a pass may be
shown any entries. -/
inductive Step : System → Event → System → Prop
  | retrieve (s : System) :
      Step s .retrieve
        { s with
          files := (s.retrieval.step s.files).2
          retrieval := (s.retrieval.step s.files).1 }
  | begin (s : System) (limits : PruneLimits) (now : Nat) :
      Step s .begin { s with passes := s.passes ++ [pruneCache limits now] }
  | list {s : System} {i : Nat} {next : List CacheEntry → Pass}
      (hpass : s.passes[i]? = some (.cacheEntries next)) (entries : List CacheEntry)
      (hentries : ∀ entry ∈ entries, IsEntry entry.path) :
      Step s (.prune i) { s with passes := s.passes.set i (next entries) }
  | remove {s : System} {i : Nat} {path : String} {next : Pass}
      (hpass : s.passes[i]? = some (.remove path next)) :
      Step s (.prune i)
        { s with
          files := s.files.remove path
          passes := s.passes.set i next }

/-- A step does not take away a file the retrieval has found and is about to read. -/
def Timely (s t : System) : Prop :=
  ∀ path next, s.retrieval = .read path next → s.files.isFile path = true →
    t.files.isFile path = true

/-! ## What a retrieval does after the read -/

theorem isEntry_entryPath {key : String} (h : key ≠ "") : IsEntry (entryPath key) :=
  ⟨key, h, rfl⟩

theorem not_isEntry_temporaryPath (key : String) : ¬ IsEntry (temporaryPath key) := by
  rintro ⟨stem, -, h⟩
  have hlast := congrArg (fun path => path.toList.getLast?) h
  simp [temporaryPath] at hlast

section Blind

variable (env : Env) {next : Bool → Option String → Session → Prog Outcome}

/-- What holds of every end, and of what follows the check, holds of a check and what follows. -/
theorem cacheEntryIsServable_of {Q : Prog Outcome → Prop} (hdone : ∀ outcome, Q (.done outcome))
    (data : Entry) (known : Option String) (session : Session)
    (hnext : ∀ servable known session, Q (next servable known session)) :
    Q (cacheEntryIsServable env data known session next) := by
  rw [cacheEntryIsServable]
  split
  · split
    · exact hnext _ _ _
    · split
      · exact hnext _ _ _
      · rw [checkout]
        split
        · exact hnext _ _ _
        · exact hdone _
  · exact hnext _ _ _

theorem blind_storeEntry (key : String) (data : Entry) (known : Option String)
    (session : Session) : (storeEntry env key data known session).Blind IsEntry := by
  rw [storeEntry]
  split
  · exact .done _
  · apply Prog.Blind.write
    intro written
    split
    · apply Prog.Blind.rename (not_isEntry_temporaryPath key)
      intro renamed
      split
      · exact .done _
      · exact .done _
    · exact .done _

theorem blind_generateEntry (key : String) (tree : Option TreeIndex) (known : Option String)
    (session : Session) : (generateEntry env key tree known session).Blind IsEntry := by
  rw [generateEntry, checkout]
  split
  · split
    · exact .done _
    · split
      · exact .done _
      · exact blind_storeEntry env key _ known _
  · exact .done _

variable [HashFunction Sha256Bytes]

theorem blind_generateMissing (modified : PathSet) (base : Option Entry) (key : String)
    (known : Option String) (session : Session) :
    (generateMissing env modified base key known session).Blind IsEntry := by
  rw [generateMissing]
  split
  · split
    · exact .done _
    · split
      · exact blind_storeEntry env key _ known session
      · exact blind_generateEntry env key _ known session
  · exact blind_generateEntry env key none known session

omit [HashFunction Sha256Bytes] in
theorem blind_lookupRemote (key : String) (known : Option String) (session : Session)
    {miss : Option String → Session → Prog Outcome}
    (hmiss : ∀ known session, (miss known session).Blind IsEntry) :
    (lookupRemote env key known session miss).Blind IsEntry := by
  rw [lookupRemote]
  split
  · exact hmiss known session
  · split
    · exact .done _
    · apply cacheEntryIsServable_of env .done
      intro servable known session
      split
      · apply Prog.Blind.write
        intro written
        split
        · exact .done _
        · exact .done _
      · exact hmiss known session

end Blind

/-- A program that looks once whether its entry is there and then reads it, with `lost` said of
its end when there is nothing to read; apart from that it is blind. -/
inductive LooksOnce (path : String) (lost : Outcome → Prop) : Prog Outcome → Prop
  | blind {program : Prog Outcome} (h : program.Blind IsEntry) : LooksOnce path lost program
  | check {next : Bool → Prog Outcome} {read : Option (List UInt8) → Prog Outcome}
      (hfound : next true = .read path read) (habsent : (next false).Blind IsEntry)
      (hread : ∀ content, (read content).Blind IsEntry)
      (hlost : ∃ outcome, read none = .done outcome ∧ lost outcome) :
      LooksOnce path lost (.isFile path next)

/-- The retrieval failed to read its entry. -/
def LostEntry (path : String) (outcome : Outcome) : Prop :=
  outcome.1 = bail ("failed to read hash file " ++ path)

theorem looksOnce_lookupLocal (env : Env) (key : String) (known : Option String)
    (session : Session) {miss : Option String → Session → Prog Outcome}
    (hmiss : ∀ known session, (miss known session).Blind IsEntry) :
    LooksOnce (entryPath key) (LostEntry (entryPath key))
      (lookupLocal env key known session miss) := by
  apply LooksOnce.check rfl
  · exact hmiss known session
  · intro content
    split
    · exact .done _
    · split
      · exact .done _
      · apply cacheEntryIsServable_of env .done
        intro servable known session
        split
        · exact .touch (.done _)
        · exact hmiss known session
  · exact ⟨_, rfl, rfl⟩

theorem looksOnce_lookup (env : Env) [HashFunction Sha256Bytes] (modified : PathSet)
    (base : Option Entry) (key : String) (session : Session) :
    LooksOnce (entryPath key) (LostEntry (entryPath key)) (lookup env modified base key session) := by
  have hlocal : ∀ known session, LooksOnce (entryPath key) (LostEntry (entryPath key))
      (lookupLocal env key known session fun known session =>
        lookupRemote env key known session fun known session =>
          generateMissing env modified base key known session) := by
    intro known session
    apply looksOnce_lookupLocal env key known session
    intro known session
    apply blind_lookupRemote env key known session
    intro known session
    exact blind_generateMissing env modified base key known session
  rw [lookup, lookupMemory]
  split
  · exact hlocal none _
  · apply cacheEntryIsServable_of env fun outcome => .blind (.done outcome)
    intro servable known session
    split
    · exact .blind (.touch (.done _))
    · exact hlocal known session

/-! ## The run -/

/-- A removal that leaves a file leaves it as it was. -/
theorem node_of_isFile_remove {files : Files} {path other : String}
    (h : (files.remove other).isFile path = true) :
    (files.remove other).node path = files.node path := by
  rcases files.remove_cases other with hsame | ⟨-, hgone⟩
  · rw [hsame]
  · rw [hgone] at h ⊢
    by_cases heq : path = other
    · subst heq
      rw [Files.isFile, Files.set_node_self] at h
      cases h
    · exact files.set_node_of_ne heq .absent

/-- Where a retrieval that started as `program` over `files` is: it has not looked yet, or has
found its entry, or no longer cares. Then it ends as it would alone, with or without the entry. -/
inductive Tracks (path : String) (lost : Outcome → Prop) (files : Files) (program : Prog Outcome)
    (s : System) : Prop
  | looking {next : Bool → Prog Outcome} {read : Option (List UInt8) → Prog Outcome}
      (hprogram : program = .isFile path next) (hretrieval : s.retrieval = program)
      (hfound : next true = .read path read) (habsent : (next false).Blind IsEntry)
      (hread : ∀ content, (read content).Blind IsEntry)
      (hlost : ∃ outcome, read none = .done outcome ∧ lost outcome)
      (hfiles : s.files.SameBut IsEntry files)
      (hentry : s.files.isFile path = true → s.files.node path = files.node path)
  | found {read : Option (List UInt8) → Prog Outcome} (hretrieval : s.retrieval = .read path read)
      (hread : ∀ content, (read content).Blind IsEntry)
      (hlost : ∃ outcome, read none = .done outcome ∧ lost outcome)
      (hfiles : s.files.SameBut IsEntry files) (hfile : s.files.isFile path = true)
      (hentry : s.files.node path = files.node path)
      (hend : ((read (files.read path)).run files).1 = (program.run files).1)
  | blind (start : Files) (hblind : s.retrieval.Blind IsEntry)
      (hfiles : s.files.SameBut IsEntry start)
      (hend : (s.retrieval.run start).1 = (program.run files).1 ∨
        (s.retrieval.run start).1 = (program.run (files.set path .absent)).1)

section Run

variable {path : String} {lost : Outcome → Prop} {files : Files} {program : Prog Outcome}

theorem tracks_start (hlooks : LooksOnce path lost program) :
    Tracks path lost files program ⟨files, program, []⟩ := by
  cases hlooks with
  | blind h => exact .blind files h (.refl _ _) (Or.inl rfl)
  | check hfound habsent hread hlost =>
      exact .looking rfl rfl hfound habsent hread hlost (.refl _ _) fun _ => rfl

/-- The retrieval's own step. -/
theorem Tracks.retrieve {s : System} (hpath : IsEntry path) (h : Tracks path lost files program s) :
    Tracks path lost files program
      { s with
        files := (s.retrieval.step s.files).2
        retrieval := (s.retrieval.step s.files).1 } := by
  cases h with
  | @looking next read hprogram hretrieval hfound habsent hread hlost hfiles hentry =>
      subst hprogram
      rw [hretrieval, Prog.step]
      cases hthere : s.files.isFile path with
      | true =>
          have hnode := hentry hthere
          have hstart : files.isFile path = true := by
            rw [Files.isFile, ← hnode]
            exact hthere
          refine .found hfound hread hlost hfiles hthere hnode ?_
          rw [Prog.run, hstart, hfound, Prog.run]
      | false =>
          by_cases hstart : files.isFile path = true
          · have hwithout : s.files.SameBut IsEntry (files.set path .absent) :=
              hfiles.trans (Files.SameBut.set_absent hpath hstart).symm
            refine .blind _ habsent hwithout (Or.inr ?_)
            rw [Prog.run, Files.isFile, Files.set_node_self]
          · refine .blind _ habsent hfiles (Or.inl ?_)
            rw [Bool.not_eq_true] at hstart
            rw [Prog.run, hstart]
  | @found read hretrieval hread hlost hfiles hfile hentry hend =>
      rw [hretrieval, Prog.step]
      have hcontent : s.files.read path = files.read path := by
        rw [Files.read, Files.read, hentry]
      refine .blind files (hread _) hfiles (Or.inl ?_)
      rw [hcontent]
      exact hend
  | blind start hblind hfiles hend =>
      obtain ⟨hsame, hafter, hfiles'⟩ := hblind.step hfiles
      refine .blind (s.retrieval.step start).2 hafter hfiles' ?_
      rw [hsame, Prog.run_step]
      exact hend

/-- A removal of some entry, not the one that was found. -/
theorem Tracks.remove {s : System} {other : String} (hother : IsEntry other) (passes : List Pass)
    (h : Tracks path lost files program s)
    (htimely : ∀ path next, s.retrieval = .read path next → s.files.isFile path = true →
      (s.files.remove other).isFile path = true) :
    Tracks path lost files program
      { files := s.files.remove other, retrieval := s.retrieval, passes := passes } := by
  have hgone : (s.files.remove other).SameBut IsEntry s.files := .remove hother
  cases h with
  | looking hprogram hretrieval hfound habsent hread hlost hfiles hentry =>
      refine .looking hprogram hretrieval hfound habsent hread hlost (hgone.trans hfiles) ?_
      intro hfile
      have hnode := node_of_isFile_remove hfile
      rw [Files.isFile, hnode] at hfile
      exact hnode.trans (hentry hfile)
  | found hretrieval hread hlost hfiles hfile hentry hend =>
      have hstays := htimely path _ hretrieval hfile
      exact .found hretrieval hread hlost (hgone.trans hfiles) hstays
        ((node_of_isFile_remove hstays).trans hentry) hend
  | blind start hblind hfiles hend => exact .blind start hblind (hgone.trans hfiles) hend

theorem Tracks.passes {s : System} (h : Tracks path lost files program s) (passes : List Pass) :
    Tracks path lost files program { s with passes := passes } := by
  cases h with
  | looking hprogram hretrieval hfound habsent hread hlost hfiles hentry =>
      exact .looking hprogram hretrieval hfound habsent hread hlost hfiles hentry
  | found hretrieval hread hlost hfiles hfile hentry hend =>
      exact .found hretrieval hread hlost hfiles hfile hentry hend
  | blind start hblind hfiles hend => exact .blind start hblind hfiles hend

/-- What is known of a system: where the retrieval is, and that the passes remove entries. -/
structure Invariant (path : String) (lost : Outcome → Prop) (files : Files)
    (program : Prog Outcome) (s : System) : Prop where
  tracks : Tracks path lost files program s
  passes : ∀ pass ∈ s.passes, pass.RemovesEntries

theorem Invariant.step {s t : System} {event : Event} (hpath : IsEntry path)
    (h : Invariant path lost files program s) (hstep : Step s event t) (htimely : Timely s t) :
    Invariant path lost files program t := by
  cases hstep with
  | retrieve => exact ⟨h.tracks.retrieve hpath, h.passes⟩
  | begin limits now =>
      refine ⟨h.tracks.passes _, ?_⟩
      intro pass hpass
      rcases List.mem_append.mp hpass with hpass | hpass
      · exact h.passes pass hpass
      · rw [List.mem_singleton.mp hpass]
        exact removesEntries_pruneCache limits now
  | @list i next hpass entries hentries =>
      refine ⟨h.tracks.passes _, ?_⟩
      intro pass hmem
      rcases List.mem_or_eq_of_mem_set hmem with hmem | rfl
      · exact h.passes pass hmem
      · exact h.passes _ (List.mem_of_getElem? hpass) entries hentries
  | @remove i other next hpass =>
      have hremoves := h.passes _ (List.mem_of_getElem? hpass)
      refine ⟨h.tracks.remove hremoves.1 _ htimely, ?_⟩
      intro pass hmem
      rcases List.mem_or_eq_of_mem_set hmem with hmem | rfl
      · exact h.passes pass hmem
      · exact hremoves.2

/-- When a step takes the entry from under the retrieval, the retrieval fails to read it. -/
theorem Invariant.lost_of_not_timely {s t : System} {event : Event}
    (h : Invariant path lost files program s) (hstep : Step s event t) (htimely : ¬ Timely s t) :
    lost (t.retrieval.run t.files).1 := by
  simp only [Timely, not_forall] at htimely
  obtain ⟨other, next, hretrieval, hfile, hgone⟩ := htimely
  cases hstep with
  | retrieve =>
      rw [hretrieval] at hgone
      exact absurd hfile hgone
  | begin limits now => exact absurd hfile hgone
  | list hpass entries hentries => exact absurd hfile hgone
  | @remove i removed next' hpass =>
      have hremoves := h.passes _ (List.mem_of_getElem? hpass)
      obtain hsame | ⟨-, hset⟩ := s.files.remove_cases removed
      · rw [hsame] at hgone
        exact absurd hfile hgone
      · have heq : other = removed := by
          by_contra hne
          apply hgone
          rw [hset, Files.isFile, Files.set_node_of_ne _ hne]
          exact hfile
        subst heq
        cases h.tracks with
        | looking hprogram hsame =>
            rw [hretrieval, hprogram] at hsame
            cases hsame
        | found hsame hread hlost =>
            rw [hretrieval] at hsame
            cases hsame
            obtain ⟨outcome, hdone, hends⟩ := hlost
            show lost (s.retrieval.run _).1
            rw [hretrieval, Prog.run, hset, Files.read, Files.set_node_self, hdone]
            exact hends
        | blind start hblind =>
            rw [hretrieval] at hblind
            cases hblind with
            | read hpath => exact absurd hremoves.1 hpath

end Run

theorem cacheKey_ne_empty [HashFunction Sha256Bytes] (tree fingerprint : String)
    (modified : PathSet) : cacheKey Sha256Bytes tree fingerprint modified ≠ "" := by
  intro h
  have hlength := congrArg (fun key => key.toList.length) h
  rw [cacheKey] at hlength
  split at hlength
  · simp at hlength
  · simp at hlength

/-- The cache directory without the entry of a retrieval. -/
def withoutEntry [HashFunction Sha256Bytes] (env : Env) (modified : PathSet) (files : Files) :
    Files :=
  match env.answers.resolveTree with
  | .ok tree =>
      files.set (entryPath (cacheKey Sha256Bytes tree env.config.fingerprint modified)) .absent
  | .error _ => files

/-- In every run in which no entry goes between being found and being read, a retrieval ends as
it would with nobody else there, or as it would then without the entry. When one does go there,
the retrieval fails. -/
theorem pruning_spares_iff_timely [HashFunction Sha256Bytes] (env : Env) (modified : PathSet)
    (base : Option Entry) (session : Session) (files : Files) :
    (∀ s outcome, Reachable (fun s event t => Step s event t ∧ Timely s t)
        ⟨files, getHashesLocked env modified base session, []⟩ s →
      s.retrieval = .done outcome →
        outcome = ((getHashesLocked env modified base session).run files).1 ∨
        outcome = ((getHashesLocked env modified base session).run
          (withoutEntry env modified files)).1) ∧
    ∀ s event t, Reachable (fun s event t => Step s event t ∧ Timely s t)
        ⟨files, getHashesLocked env modified base session, []⟩ s →
      Step s event t → ¬ Timely s t → ∃ path, LostEntry path (t.retrieval.run t.files).1 := by
  obtain ⟨path, hpath, hlooks, hwithout⟩ : ∃ path, IsEntry path ∧
      LooksOnce path (LostEntry path) (getHashesLocked env modified base session) ∧
      ((getHashesLocked env modified base session).run (files.set path .absent)).1 =
        ((getHashesLocked env modified base session).run (withoutEntry env modified files)).1 := by
    rw [getHashesLocked, withoutEntry]
    cases env.answers.resolveTree with
    | ok tree =>
        exact ⟨_, isEntry_entryPath (cacheKey_ne_empty tree env.config.fingerprint modified),
          looksOnce_lookup env modified base _ session, rfl⟩
    | error failure =>
        exact ⟨"x.json", ⟨"x", by simp, rfl⟩, .blind (.done _), rfl⟩
  have hinvariant : ∀ s, Reachable (fun s event t => Step s event t ∧ Timely s t)
      ⟨files, getHashesLocked env modified base session, []⟩ s →
      Invariant path (LostEntry path) files (getHashesLocked env modified base session) s := by
    intro s hreach
    apply hreach.invariant ⟨tracks_start hlooks, fun _ hpass => nomatch hpass⟩
    intro s event t hs hstep
    exact hs.step hpath hstep.1 hstep.2
  constructor
  · intro s outcome hreach hdone
    cases (hinvariant s hreach).tracks with
    | looking hprogram hretrieval =>
        rw [hdone, hprogram] at hretrieval
        cases hretrieval
    | found hretrieval =>
        rw [hdone] at hretrieval
        cases hretrieval
    | blind start hblind hfiles hend =>
        rw [hdone, hwithout] at hend
        exact hend
  · intro s event t hreach hstep htimely
    exact ⟨path, (hinvariant s hreach).lost_of_not_timely hstep htimely⟩

/-! ## A retrieval of one entry -/

/-- A cache directory that holds the entry. -/
def oneEntry : Files where
  node := fun path => if path = "t.f.json" then .file (some [123, 125]) else .absent
  writable := true

/-- The pass that removes all entries is told of the entry. -/
def listed : List CacheEntry :=
  [⟨"t.f.json", 2, 0⟩]

theorem listed_isEntry : ∀ entry ∈ listed, IsEntry entry.path := by
  intro entry hentry
  rw [List.mem_singleton.mp hentry]
  exact ⟨"t.f", by decide, rfl⟩

/-- The retrieval finds its entry, a pass removes it, and the retrieval fails. -/
theorem entry_pruned_after_check :
    (∃ s outcome, Reachable Step
        ⟨oneEntry, @getHashesLocked emptyEnv zeroDigest .empty none emptySession, []⟩ s ∧
      s.retrieval = .done outcome ∧ LostEntry "t.f.json" outcome) ∧
    (∃ retrieved session, ((@getHashesLocked emptyEnv zeroDigest .empty none emptySession).run
      oneEntry).1 = (.ok retrieved, session)) := by
  constructor
  · apply Exists.intro
    apply Exists.intro
    refine ⟨?_, ?_, ?_⟩
    · apply Exists.intro
      apply Run.cons (.retrieve _)
      apply Run.cons (.begin _ ⟨none, some 0, none⟩ 0)
      apply Run.cons (@Step.list _ 0 _ rfl listed listed_isEntry)
      apply Run.cons (@Step.remove _ 0 _ _ rfl)
      apply Run.cons (.retrieve _)
      exact .nil _
    · rfl
    · rfl
  · exact ⟨_, _, rfl⟩

theorem Timely.of_files {s t : System} (h : t.files = s.files) : Timely s t := by
  intro path next _ hfile
  rw [h]
  exact hfile

theorem Timely.of_isFile {s t : System} {path : String} {next : Bool → Prog Outcome}
    (h : s.retrieval = .isFile path next) : Timely s t := by
  intro other read hread
  rw [h] at hread
  cases hread

/-- A pass removes the entry before the retrieval looks, and it is generated anew; removed after
the look, the retrieval fails. -/
theorem entry_pruned_before_check :
    (∃ s retrieved session, Reachable (fun s event t => Step s event t ∧ Timely s t)
        ⟨oneEntry, @getHashesLocked emptyEnv zeroDigest .empty none emptySession, []⟩ s ∧
      s.retrieval = .done (.ok retrieved, session) ∧ retrieved.cacheHit = false ∧
      ((.ok retrieved, session) =
          ((@getHashesLocked emptyEnv zeroDigest .empty none emptySession).run oneEntry).1 ∨
        (.ok retrieved, session) =
          ((@getHashesLocked emptyEnv zeroDigest .empty none emptySession).run
            (@withoutEntry zeroDigest emptyEnv .empty oneEntry)).1)) ∧
    ∃ s t path, Reachable (fun s event t => Step s event t ∧ Timely s t)
        ⟨oneEntry, @getHashesLocked emptyEnv zeroDigest .empty none emptySession, []⟩ s ∧
      Step s (.prune 0) t ∧ LostEntry path (t.retrieval.run t.files).1 := by
  obtain ⟨hspares, hloses⟩ :=
    @pruning_spares_iff_timely zeroDigest emptyEnv .empty none emptySession oneEntry
  constructor
  · have hrun : ∃ s retrieved session, Reachable (fun s event t => Step s event t ∧ Timely s t)
        ⟨oneEntry, @getHashesLocked emptyEnv zeroDigest .empty none emptySession, []⟩ s ∧
        s.retrieval = .done (.ok retrieved, session) ∧ retrieved.cacheHit = false := by
      apply Exists.intro
      apply Exists.intro
      apply Exists.intro
      refine ⟨?_, ?_, ?_⟩
      · apply Exists.intro
        apply Run.cons ⟨.begin _ ⟨none, some 0, none⟩ 0, .of_files rfl⟩
        apply Run.cons ⟨@Step.list _ 0 _ rfl listed listed_isEntry, .of_files rfl⟩
        apply Run.cons ⟨@Step.remove _ 0 _ _ rfl, .of_isFile rfl⟩
        apply Run.cons ⟨.retrieve _, .of_isFile rfl⟩
        apply Run.cons ⟨.retrieve _, fun _ _ hread => nomatch hread⟩
        apply Run.cons ⟨.retrieve _, fun _ _ hread => nomatch hread⟩
        exact .nil _
      · rfl
      · rfl
    obtain ⟨s, retrieved, session, hreach, hdone, hmissed⟩ := hrun
    exact ⟨s, retrieved, session, hreach, hdone, hmissed, hspares s _ hreach hdone⟩
  · have hrun : ∃ s t, Reachable (fun s event t => Step s event t ∧ Timely s t)
        ⟨oneEntry, @getHashesLocked emptyEnv zeroDigest .empty none emptySession, []⟩ s ∧
        Step s (.prune 0) t ∧ ¬ Timely s t := by
      apply Exists.intro
      apply Exists.intro
      refine ⟨?_, ?_, ?_⟩
      · apply Exists.intro
        apply Run.cons ⟨.retrieve _, .of_isFile rfl⟩
        apply Run.cons ⟨.begin _ ⟨none, some 0, none⟩ 0, .of_files rfl⟩
        apply Run.cons ⟨@Step.list _ 0 _ rfl listed listed_isEntry, .of_files rfl⟩
        exact .nil _
      · exact @Step.remove _ 0 _ _ rfl
      · intro htimely
        exact absurd (htimely "t.f.json" _ rfl rfl) (by decide)
    obtain ⟨s, t, hreach, hstep, htimely⟩ := hrun
    obtain ⟨path, hlost⟩ := hloses s _ t hreach hstep htimely
    exact ⟨s, t, path, hreach, hstep, hlost⟩

end BazelDiff.Server.Pruning
