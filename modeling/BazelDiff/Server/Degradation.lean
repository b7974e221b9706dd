/-
# What a bad shared entry costs

A shared tier is to cost throughput, never availability: a retrieval whose revision can be
generated is to succeed whatever the shared store holds, and content that cannot be served is to
count as a miss. A retrieval passes the errors of the parser and of the servability check on,
though. The states in which that happens are collected in `Clean`, and are the only ones.
-/

import BazelDiff.Server.Retrieval

namespace BazelDiff.Server.Degradation

open Retrieval
open UnixPath (PathSet)

/-! ## Generations -/

/-- The cache directory takes a new entry. -/
structure Storable (files : Files) (key : String) : Prop where
  writable : files.writable = true
  temporary : files.node (temporaryPath key) ≠ .directory
  entry : files.node (entryPath key) ≠ .directory

theorem entryPath_ne_temporaryPath (key : String) : entryPath key ≠ temporaryPath key := by
  intro h
  have hlast := congrArg (fun path => path.toList.getLast?) h
  simp [entryPath, temporaryPath] at hlast

/-- The cache directory once an entry is stored. -/
def storedFiles (files : Files) (key : String) (bytes : List UInt8) : Files :=
  ((files.set (temporaryPath key) (.file (some bytes))).set (temporaryPath key) .absent).set
    (entryPath key) (.file (some bytes))

theorem Storable.write {files : Files} {key : String} (h : Storable files key)
    (bytes : List UInt8) :
    files.write (entryPath key) bytes = some (files.set (entryPath key) (.file (some bytes))) := by
  rw [Files.write, if_pos ⟨h.writable, h.entry⟩]

section Store

variable (env : Env)

def storedBytes (data : Entry) : List UInt8 :=
  env.formats.print (data.serialized true env.config.trackDeps)

/-- What else a retrieval leaves when it stores an entry. -/
def storedSession (key : String) (data : Entry) (session : Session) : Session :=
  let bytes := storedBytes env data
  let puts := if env.remote.isSome then RemoteCache.put env.formats key bytes else []
  { session with puts := session.puts ++ puts }.remember key bytes data

theorem run_storeEntry {files : Files} {key : String} (hcancelled : env.answers.checkCancelled = .ok ())
    (hstorable : Storable files key) (data : Entry) (known : Option String) (session : Session) :
    (storeEntry env key data known session).run files =
      let data := fingerprinted env data known session
      ((.ok ⟨data, false⟩, storedSession env key data session),
        storedFiles files key (storedBytes env data)) := by
  rw [storeEntry, hcancelled]
  dsimp only
  rw [Prog.run, Files.write, if_pos ⟨hstorable.writable, hstorable.temporary⟩]
  dsimp only
  rw [if_pos rfl, Prog.run, Files.rename, if_pos]
  · rw [Files.set_node_self]
    rfl
  · refine ⟨hstorable.writable, ?_, ?_⟩
    · rw [Files.isFile, Files.set_node_self]
    · rw [Files.set_node_of_ne _ (entryPath_ne_temporaryPath key)]
      exact hstorable.entry

theorem run_storeEntry_error {files : Files} {key : String}
    (h : ¬ (env.answers.checkCancelled = .ok () ∧ Storable files key)) (data : Entry)
    (known : Option String) (session : Session) :
    ∃ failure after, (storeEntry env key data known session).run files =
      ((.error failure, session), after) := by
  rw [storeEntry]
  cases hcancelled : env.answers.checkCancelled with
  | error failure => exact ⟨failure, files, rfl⟩
  | ok _ =>
      dsimp only
      rw [Prog.run, Files.write]
      by_cases hwrite : files.writable = true ∧ files.node (temporaryPath key) ≠ .directory
      · rw [if_pos hwrite]
        dsimp only
        rw [if_pos rfl, Prog.run, Files.rename, if_neg]
        · exact ⟨_, _, rfl⟩
        · rintro ⟨-, -, hentry⟩
          rw [Files.set_node_of_ne _ (entryPath_ne_temporaryPath key)] at hentry
          exact h ⟨hcancelled, hwrite.1, hwrite.2, hentry⟩
      · rw [if_neg hwrite]
        exact ⟨_, _, rfl⟩

end Store

section Generation

variable (env : Env)

/-- The workspace after a generation that was derived, or needed a checkout. -/
def arrived (derived : Bool) (session : Session) : Session :=
  if derived then session else { session with checkedOut := true }

/-- The data of a full generation. -/
def fullData (tree : Option TreeIndex) : Result (Entry × Bool) := do
  env.answers.checkout
  let data ← env.answers.generateHashes
  tree.elim (.ok ()) (env.answers.checkTrackedPackages data)
  return (data, false)

theorem generateEntry_cases (key : String) (tree : Option TreeIndex) (known : Option String)
    (session : Session) :
    (∃ failure after, fullData env tree = .error failure ∧
        generateEntry env key tree known session = .done (.error failure, after)) ∨
      ∃ data, fullData env tree = .ok (data, false) ∧
        generateEntry env key tree known session =
          storeEntry env key data known (arrived false session) := by
  rw [generateEntry, checkout, fullData]
  cases env.answers.checkout with
  | error failure => exact Or.inl ⟨failure, session, rfl, rfl⟩
  | ok _ =>
      cases env.answers.generateHashes with
      | error failure => exact Or.inl ⟨failure, _, rfl, rfl⟩
      | ok data =>
          dsimp only
          cases hpackages : tree.elim (.ok ()) (env.answers.checkTrackedPackages data) with
          | error failure =>
              refine Or.inl ⟨failure, _, ?_, rfl⟩
              show (tree.elim (.ok ()) (env.answers.checkTrackedPackages data) >>= _) = _
              rw [hpackages]
              rfl
          | ok _ =>
              refine Or.inr ⟨data, ?_, rfl⟩
              show (tree.elim (.ok ()) (env.answers.checkTrackedPackages data) >>= _) = _
              rw [hpackages]
              rfl

variable [HashFunction Sha256Bytes]

/-- The data a generation makes, and whether it was derived. -/
def madeData (modified : PathSet) (base : Option Entry) : Result (Entry × Bool) :=
  if modified.paths.isEmpty && !env.config.contentHashes then
    match env.answers.gitTreeIndex with
    | .error failure => .error failure
    | .ok tree =>
        match derivedEntry env base tree with
        | some data => .ok (data, true)
        | none => fullData env (some tree)
  else fullData env none

theorem generateMissing_cases (modified : PathSet) (base : Option Entry) (key : String)
    (known : Option String) (session : Session) :
    (∃ failure after, madeData env modified base = .error failure ∧
        generateMissing env modified base key known session = .done (.error failure, after)) ∨
      ∃ data derived, madeData env modified base = .ok (data, derived) ∧
        generateMissing env modified base key known session =
          storeEntry env key data known (arrived derived session) := by
  have hfull : ∀ tree, (∃ failure after, fullData env tree = .error failure ∧
      generateEntry env key tree known session = .done (.error failure, after)) ∨
      ∃ data derived, fullData env tree = .ok (data, derived) ∧
        generateEntry env key tree known session =
          storeEntry env key data known (arrived derived session) := by
    intro tree
    exact (generateEntry_cases env key tree known session).imp_right
      fun ⟨data, hdata, hstore⟩ => ⟨data, false, hdata, hstore⟩
  rw [generateMissing, madeData]
  split
  · cases env.answers.gitTreeIndex with
    | error failure => exact Or.inl ⟨failure, session, rfl, rfl⟩
    | ok tree =>
        dsimp only
        cases derivedEntry env base tree with
        | some data => exact Or.inr ⟨data, true, rfl, rfl⟩
        | none => exact hfull (some tree)
  · exact hfull none

/-- A generation of the revision succeeds, from these files. -/
def Generates (modified : PathSet) (base : Option Entry) (key : String) (session : Session)
    (files : Files) : Prop :=
  ∃ retrieved after files', (generateMissing env modified base key none session).run files =
    ((.ok retrieved, after), files')

/-- Whether a generation succeeds depends neither on the session nor on what is known. -/
theorem generates_iff (modified : PathSet) (base : Option Entry) (key : String)
    (session : Session) (files : Files) :
    Generates env modified base key session files ↔
      (∃ made, madeData env modified base = .ok made) ∧
        env.answers.checkCancelled = .ok () ∧ Storable files key := by
  rw [Generates]
  rcases generateMissing_cases env modified base key none session with
    ⟨failure, after, hmade, hrun⟩ | ⟨data, derived, hmade, hrun⟩
  · rw [hrun, hmade]
    constructor
    · rintro ⟨retrieved, after, files', h⟩
      cases h
    · rintro ⟨⟨made, h⟩, -⟩
      cases h
  · rw [hrun, hmade]
    by_cases hstores : env.answers.checkCancelled = .ok () ∧ Storable files key
    · exact iff_of_true ⟨_, _, _, run_storeEntry env hstores.1 hstores.2 data none _⟩
        ⟨⟨_, rfl⟩, hstores⟩
    · apply iff_of_false
      · rintro ⟨retrieved, after, files', h⟩
        obtain ⟨failure, files'', herror⟩ := run_storeEntry_error env hstores data none
          (arrived derived session)
        rw [herror] at h
        cases h
      · exact fun h => hstores h.2

/-- A generation that succeeds stores what it made. -/
theorem run_generateMissing {modified : PathSet} {base : Option Entry} {key : String}
    {files : Files} {data : Entry} {derived : Bool}
    (hmade : madeData env modified base = .ok (data, derived))
    (hcancelled : env.answers.checkCancelled = .ok ()) (hstorable : Storable files key)
    (known : Option String) (session : Session) :
    (generateMissing env modified base key known session).run files =
      let data := fingerprinted env data known (arrived derived session)
      ((.ok ⟨data, false⟩, storedSession env key data (arrived derived session)),
        storedFiles files key (storedBytes env data)) := by
  rcases generateMissing_cases env modified base key known session with
    ⟨failure, after, hmade', hrun⟩ | ⟨data', derived', hmade', hrun⟩
  · rw [hmade] at hmade'
    cases hmade'
  · rw [hmade] at hmade'
    cases hmade'
    rw [hrun, run_storeEntry env hcancelled hstorable]

/-- One that does not succeed ends in an error. -/
theorem run_generateMissing_error {modified : PathSet} {base : Option Entry} {key : String}
    {session : Session} {files : Files} (h : ¬ Generates env modified base key session files)
    (known : Option String) (session' : Session) :
    ∃ failure after files', (generateMissing env modified base key known session').run files =
      ((.error failure, after), files') := by
  rw [generates_iff] at h
  rcases generateMissing_cases env modified base key known session' with
    ⟨failure, after, hmade, hrun⟩ | ⟨data, derived, hmade, hrun⟩
  · exact ⟨failure, after, files, by rw [hrun, Prog.run]⟩
  · have hstores : ¬ (env.answers.checkCancelled = .ok () ∧ Storable files key) :=
      fun hstores => h ⟨⟨_, hmade⟩, hstores⟩
    obtain ⟨failure, files', herror⟩ := run_storeEntry_error env hstores data known
      (arrived derived session')
    exact ⟨failure, _, files', by rw [hrun, herror]⟩

end Generation

/-! ## The servability check -/

section Check

variable (env : Env)

/-- The fingerprint of the revision's external dependencies. -/
def currentFingerprint : Option String :=
  env.answers.dependencyFingerprint true

/-- The check has to look at the workspace. -/
def needsCheck (data : Entry) : Bool :=
  env.config.dependencyFingerprint && data.dependencyFingerprint.isSome

/-- The entry may be served. -/
def servable (data : Entry) : Bool :=
  !env.config.dependencyFingerprint ||
    (data.dependencyFingerprint.isSome && data.dependencyFingerprint = currentFingerprint env)

/-- The check can look at the workspace if it has to. -/
def CheckPasses (data : Entry) : Prop :=
  needsCheck env data = true → env.answers.checkout = .ok ()

/-- A fingerprint that is known is the current one, and the workspace is at the revision. -/
def Consistent (known : Option String) (session : Session) : Prop :=
  known = none ∨
    known = currentFingerprint env ∧ session.checkedOut = true ∧ env.answers.checkout = .ok ()

/-- What is known, and the session, after an entry was checked. -/
def afterCheck (data : Entry) (state : Option String × Session) : Option String × Session :=
  if needsCheck env data then
    (currentFingerprint env, { state.2 with checkedOut := true })
  else state

variable {env}

theorem consistent_afterCheck {data : Entry} {state : Option String × Session}
    (hstate : Consistent env state.1 state.2) (hpasses : CheckPasses env data) :
    Consistent env (afterCheck env data state).1 (afterCheck env data state).2 := by
  rw [afterCheck]
  split
  case isTrue hneeds => exact Or.inr ⟨rfl, rfl, hpasses hneeds⟩
  case isFalse => exact hstate

/-- A check that can look ends in its answer. -/
theorem cacheEntryIsServable_eq {data : Entry} {known : Option String} {session : Session}
    (hstate : Consistent env known session) (hpasses : CheckPasses env data)
    (next : Bool → Option String → Session → Prog Outcome) :
    cacheEntryIsServable env data known session next =
      next (servable env data) (afterCheck env data (known, session)).1
        (afterCheck env data (known, session)).2 := by
  cases hguard : env.config.dependencyFingerprint with
  | false => simp [cacheEntryIsServable, afterCheck, servable, needsCheck, hguard]
  | true =>
      cases hcached : data.dependencyFingerprint with
      | none => simp [cacheEntryIsServable, afterCheck, servable, needsCheck, hguard, hcached]
      | some cached =>
          have hneeds : needsCheck env data = true := by simp [needsCheck, hguard, hcached]
          have hanswer : servable env data = decide (currentFingerprint env = some cached) := by
            simp [servable, hguard, hcached, eq_comm]
          rw [cacheEntryIsServable, if_pos hguard, hcached, afterCheck, if_pos hneeds, hanswer]
          cases known with
          | none =>
              show checkout env session _ = _
              rw [checkout, hpasses hneeds]
              rfl
          | some current =>
              obtain hnone | ⟨hcurrent, hat, -⟩ := hstate
              · cases hnone
              · have hsession : { session with checkedOut := true } = session := by
                  rw [← hat]
                rw [← hcurrent, hsession]
                simp

/-- A check that cannot look fails the retrieval. -/
theorem cacheEntryIsServable_error {data : Entry} {known : Option String} {session : Session}
    (hstate : Consistent env known session) (hfails : ¬ CheckPasses env data) :
    ∃ failure, ∀ next, cacheEntryIsServable env data known session next =
      .done (.error failure, session) := by
  rw [CheckPasses, Classical.not_imp, needsCheck] at hfails
  obtain ⟨hneeds, hcheckout⟩ := hfails
  obtain rfl | ⟨-, -, hok⟩ := hstate
  · cases hanswer : env.answers.checkout with
    | ok _ => exact absurd hanswer hcheckout
    | error failure =>
        refine ⟨failure, fun next => ?_⟩
        rw [Bool.and_eq_true] at hneeds
        obtain ⟨cached, hcached⟩ := Option.isSome_iff_exists.mp hneeds.2
        rw [cacheEntryIsServable, if_pos hneeds.1, hcached]
        show checkout env session _ = _
        rw [checkout, hanswer]
  · exact absurd hok hcheckout

end Check

/-! ## Memory and the local directory -/

section Tiers

variable (env : Env) (key : String) (session : Session) (files : Files)

def decode (bytes : List UInt8) : Result Entry :=
  HashFileData.fromSlice env.formats.parse bytes

/-- The entry in memory. -/
def memoryEntry : Option Entry :=
  (session.lookUp key).1

/-- The entry in the cache directory, if it can be read and decoded. -/
def localEntry : Option Entry :=
  (files.read (entryPath key)).bind fun bytes => (decode env bytes).toOption

/-- What the shared tier has to offer. -/
def remoteBytes : Option (List UInt8) :=
  env.remote.bind fun remote => remote.get env.formats key

/-- The memory tier can be checked. -/
def MemoryClean : Prop :=
  ∀ data, memoryEntry key session = some data → CheckPasses env data

/-- A file in the local directory can be read, decoded and checked. -/
def LocalClean : Prop :=
  files.isFile (entryPath key) = true →
    ∃ bytes data, files.read (entryPath key) = some bytes ∧ decode env bytes = .ok data ∧
      CheckPasses env data

def MemoryServes : Prop :=
  ∃ data, memoryEntry key session = some data ∧ servable env data = true

def LocalServes : Prop :=
  ∃ data, localEntry env key files = some data ∧ servable env data = true

/-- What is known, and the session, after an entry was checked if there is one. -/
def afterTier (entry : Option Entry) (state : Option String × Session) :
    Option String × Session :=
  entry.elim state fun data => afterCheck env data state

/-- What is known, and the session, after the two tiers were checked. -/
def afterTiers : Option String × Session :=
  afterTier env (localEntry env key files)
    (afterTier env (memoryEntry key session) (none, (session.lookUp key).2))

/-- Where the data of a retrieval comes from: an entry filed under the key in one of the tiers, or
a generation of the revision. -/
inductive Held [HashFunction Sha256Bytes] (modified : PathSet) (base : Option Entry) :
    Retrieved → Prop
  | memory {data : Entry} (h : memoryEntry key session = some data) : Held modified base ⟨data, true⟩
  | directory {data : Entry} (h : localEntry env key files = some data) :
      Held modified base ⟨data, true⟩
  | remote {bytes : List UInt8} {data : Entry} (hbytes : remoteBytes env key = some bytes)
      (hdata : decode env bytes = .ok data) : Held modified base ⟨data, true⟩
  | generated {data : Entry} {derived : Bool} (h : madeData env modified base = .ok (data, derived))
      (known : Option String) (session : Session) :
      Held modified base ⟨fingerprinted env data known session, false⟩

variable {env key session files} {miss : Option String → Session → Prog Outcome}

theorem lookupMemory_error (h : ¬ MemoryClean env key session) :
    ∃ failure after, ∀ miss, lookupMemory env key session miss = .done (.error failure, after) := by
  simp only [MemoryClean, not_forall] at h
  obtain ⟨data, hdata, hfails⟩ := h
  obtain ⟨failure, herror⟩ :=
    @cacheEntryIsServable_error env data none (session.lookUp key).2 (Or.inl rfl) hfails
  refine ⟨failure, (session.lookUp key).2, fun miss => ?_⟩
  rw [← herror, lookupMemory]
  rw [memoryEntry] at hdata
  rw [← Prod.mk.eta (p := session.lookUp key), hdata]

theorem lookupMemory_served (hclean : MemoryClean env key session)
    (hserves : MemoryServes env key session) :
    ∃ data after, memoryEntry key session = some data ∧ ∀ miss,
      lookupMemory env key session miss =
        .touch (entryPath key) (.done (.ok ⟨data, true⟩, after)) := by
  obtain ⟨data, hdata, hservable⟩ := hserves
  refine ⟨data, (afterCheck env data (none, (session.lookUp key).2)).2, hdata, fun miss => ?_⟩
  have hpasses := hclean data hdata
  rw [memoryEntry] at hdata
  rw [lookupMemory, ← Prod.mk.eta (p := session.lookUp key), hdata]
  show cacheEntryIsServable env data none (session.lookUp key).2 _ = _
  rw [cacheEntryIsServable_eq (Or.inl rfl) hpasses, hservable]
  rfl

theorem lookupMemory_miss (hclean : MemoryClean env key session)
    (hserves : ¬ MemoryServes env key session) (miss : Option String → Session → Prog Outcome) :
    let state := afterTier env (memoryEntry key session) (none, (session.lookUp key).2)
    lookupMemory env key session miss = miss state.1 state.2 ∧ Consistent env state.1 state.2 := by
  dsimp only
  cases hdata : memoryEntry key session with
  | none =>
      refine ⟨?_, Or.inl rfl⟩
      rw [memoryEntry] at hdata
      rw [lookupMemory, ← Prod.mk.eta (p := session.lookUp key), hdata]
      rfl
  | some data =>
      have hpasses := hclean data hdata
      have hservable : servable env data = false :=
        eq_false_of_ne_true fun hservable => hserves ⟨data, hdata, hservable⟩
      refine ⟨?_, consistent_afterCheck (Or.inl rfl) hpasses⟩
      rw [memoryEntry] at hdata
      rw [lookupMemory, ← Prod.mk.eta (p := session.lookUp key), hdata]
      show cacheEntryIsServable env data none (session.lookUp key).2 _ = _
      rw [cacheEntryIsServable_eq (Or.inl rfl) hpasses, hservable]
      rfl

section Local

variable {known : Option String}

theorem run_lookupLocal_decoded {bytes : List UInt8} {data : Entry}
    (hfile : files.isFile (entryPath key) = true) (hbytes : files.read (entryPath key) = some bytes)
    (hdata : decode env bytes = .ok data) (miss : Option String → Session → Prog Outcome) :
    (lookupLocal env key known session miss).run files =
      (cacheEntryIsServable env data known session fun servable known session =>
        if servable then
          .touch (entryPath key) (.done (.ok ⟨data, true⟩, session.remember key bytes data))
        else miss known session).run files := by
  rw [decode] at hdata
  rw [lookupLocal, Prog.run, hfile, if_pos rfl, Prog.run, hbytes]
  dsimp only
  rw [hdata]

theorem lookupLocal_error (hstate : Consistent env known session)
    (h : ¬ LocalClean env key files) :
    ∃ failure after, ∀ miss, (lookupLocal env key known session miss).run files =
      ((.error failure, after), files) := by
  rw [LocalClean, Classical.not_imp] at h
  obtain ⟨hfile, hbad⟩ := h
  cases hbytes : files.read (entryPath key) with
  | none =>
      refine ⟨.error ("failed to read hash file " ++ entryPath key), session, fun miss => ?_⟩
      rw [lookupLocal, Prog.run, hfile, if_pos rfl, Prog.run, hbytes]
      rfl
  | some bytes =>
      cases hdata : decode env bytes with
      | error failure =>
          refine ⟨failure, session, fun miss => ?_⟩
          rw [decode] at hdata
          rw [lookupLocal, Prog.run, hfile, if_pos rfl, Prog.run, hbytes]
          dsimp only
          rw [hdata]
          rfl
      | ok data =>
          have hfails : ¬ CheckPasses env data :=
            fun hpasses => hbad ⟨bytes, data, hbytes, hdata, hpasses⟩
          obtain ⟨failure, herror⟩ := cacheEntryIsServable_error hstate hfails
          refine ⟨failure, session, fun miss => ?_⟩
          rw [run_lookupLocal_decoded hfile hbytes hdata, herror]
          rfl

theorem isFile_of_read {path : String} {bytes : List UInt8} (h : files.read path = some bytes) :
    files.isFile path = true := by
  rw [Files.read] at h
  rw [Files.isFile]
  cases hnode : files.node path with
  | file content => rfl
  | absent =>
      rw [hnode] at h
      cases h
  | directory =>
      rw [hnode] at h
      cases h

theorem localEntry_eq_some {data : Entry} :
    localEntry env key files = some data ↔
      ∃ bytes, files.read (entryPath key) = some bytes ∧ decode env bytes = .ok data := by
  rw [localEntry, Option.bind_eq_some_iff]
  constructor
  · rintro ⟨bytes, hbytes, hdata⟩
    cases hdecode : decode env bytes with
    | ok found =>
        rw [hdecode] at hdata
        cases hdata
        exact ⟨bytes, hbytes, hdecode⟩
    | error failure =>
        rw [hdecode] at hdata
        cases hdata
  · rintro ⟨bytes, hbytes, hdata⟩
    exact ⟨bytes, hbytes, by rw [hdata]; rfl⟩

theorem lookupLocal_served (hstate : Consistent env known session)
    (hclean : LocalClean env key files) (hserves : LocalServes env key files) :
    ∃ data after, localEntry env key files = some data ∧ ∀ miss,
      (lookupLocal env key known session miss).run files = ((.ok ⟨data, true⟩, after), files) := by
  obtain ⟨data, hentry, hservable⟩ := hserves
  obtain ⟨bytes, hbytes, hdata⟩ := localEntry_eq_some.mp hentry
  have hfile := isFile_of_read hbytes
  obtain ⟨bytes', data', hbytes', hdata', hpasses⟩ := hclean hfile
  obtain rfl : bytes = bytes' := Option.some.inj (hbytes.symm.trans hbytes')
  obtain rfl : data = data' := Except.ok.inj (hdata.symm.trans hdata')
  refine ⟨data, (afterCheck env data (known, session)).2.remember key bytes data, hentry,
    fun miss => ?_⟩
  rw [run_lookupLocal_decoded hfile hbytes hdata, cacheEntryIsServable_eq hstate hpasses, hservable]
  rfl

theorem lookupLocal_miss (hstate : Consistent env known session)
    (hclean : LocalClean env key files) (hserves : ¬ LocalServes env key files)
    (miss : Option String → Session → Prog Outcome) :
    let state := afterTier env (localEntry env key files) (known, session)
    (lookupLocal env key known session miss).run files = (miss state.1 state.2).run files ∧
      Consistent env state.1 state.2 := by
  dsimp only
  by_cases hfile : files.isFile (entryPath key) = true
  · obtain ⟨bytes, data, hbytes, hdata, hpasses⟩ := hclean hfile
    have hentry : localEntry env key files = some data :=
      localEntry_eq_some.mpr ⟨bytes, hbytes, hdata⟩
    have hservable : servable env data = false :=
      eq_false_of_ne_true fun hservable => hserves ⟨data, hentry, hservable⟩
    rw [hentry]
    refine ⟨?_, consistent_afterCheck hstate hpasses⟩
    rw [run_lookupLocal_decoded hfile hbytes hdata, cacheEntryIsServable_eq hstate hpasses,
      hservable]
    rfl
  · have hentry : localEntry env key files = none := by
      cases hentry : localEntry env key files with
      | none => rfl
      | some data =>
          obtain ⟨bytes, hbytes, -⟩ := localEntry_eq_some.mp hentry
          exact absurd (isFile_of_read hbytes) hfile
    rw [hentry]
    refine ⟨?_, hstate⟩
    rw [Bool.not_eq_true] at hfile
    rw [lookupLocal, Prog.run, hfile]
    rfl

end Local

end Tiers

/-! ## Whole retrievals -/

section Whole

variable (env : Env) (key : String) (session : Session) (files : Files)

/-- Memory and the local directory one after the other. -/
def lookupTiers (miss : Option String → Session → Prog Outcome) : Prog Outcome :=
  lookupMemory env key session fun known session => lookupLocal env key known session miss

def TiersClean : Prop :=
  MemoryClean env key session ∧ (¬ MemoryServes env key session → LocalClean env key files)

def TiersServe : Prop :=
  MemoryServes env key session ∨ LocalServes env key files

/-- What the shared tier offers can be decoded and checked. -/
def RemoteClean : Prop :=
  ∀ bytes, remoteBytes env key = some bytes →
    ∃ data, decode env bytes = .ok data ∧ CheckPasses env data

/-- What the shared tier offers is an entry that may be served. -/
def RemoteServes : Prop :=
  ∃ bytes data, remoteBytes env key = some bytes ∧ decode env bytes = .ok data ∧
    servable env data = true

/-- When the check of a shared entry moves the workspace to the revision, and the entry is not
served but one without a fingerprint is derived, the fingerprint it gets is the one it would get
where the workspace was. -/
def FingerprintKept [HashFunction Sha256Bytes] (modified : PathSet) (base : Option Entry) : Prop :=
  ∀ bytes data made, remoteBytes env key = some bytes → decode env bytes = .ok data →
    needsCheck env data = true → servable env data = false →
    madeData env modified base = .ok (made, true) → made.dependencyFingerprint = none →
      currentFingerprint env =
        env.answers.dependencyFingerprint (afterTiers env key session files).2.checkedOut

/-- Every tier a retrieval comes to can be read, decoded and checked. -/
structure Clean [HashFunction Sha256Bytes] (modified : PathSet) (base : Option Entry) : Prop where
  tiers : TiersClean env key session files
  remote : ¬ TiersServe env key session files → RemoteClean env key
  fingerprint : ¬ TiersServe env key session files →
    FingerprintKept env key session files modified base

/-- The same surroundings, with nothing in the shared tier. -/
def withoutShared : Env :=
  { env with remote := env.remote.map fun _ => ⟨fun _ => .missing⟩ }

/-- Two retrievals have the same effect: both fail, or both return the same and leave the same in
every tier. -/
inductive SameEffect : Outcome × Files → Outcome × Files → Prop
  | failed (failure failure' : Failure) (session session' : Session) (files files' : Files) :
      SameEffect ((.error failure, session), files) ((.error failure', session'), files')
  | returned (retrieved : Retrieved) {session session' : Session} (files : Files)
      (hmemory : session.memory = session'.memory) (hputs : session.puts = session'.puts) :
      SameEffect ((.ok retrieved, session), files) ((.ok retrieved, session'), files)

variable {env key session files}

theorem lookupTiers_error (h : ¬ TiersClean env key session files) :
    ∃ failure after, ∀ miss, (lookupTiers env key session miss).run files =
      ((.error failure, after), files) := by
  by_cases hmemory : MemoryClean env key session
  · rw [TiersClean, not_and, Classical.not_imp] at h
    obtain ⟨hserves, hlocal⟩ := h hmemory
    have hstate := (lookupMemory_miss hmemory hserves fun _ _ => .done (.error ioFailure, session)).2
    obtain ⟨failure, after, herror⟩ := lookupLocal_error hstate hlocal
    refine ⟨failure, after, fun miss => ?_⟩
    rw [lookupTiers, (lookupMemory_miss hmemory hserves _).1]
    exact herror miss
  · obtain ⟨failure, after, herror⟩ := lookupMemory_error hmemory
    refine ⟨failure, after, fun miss => ?_⟩
    rw [lookupTiers, herror]
    rfl

theorem lookupTiers_served (hclean : TiersClean env key session files)
    (hserves : TiersServe env key session files) :
    ∃ data after, (memoryEntry key session = some data ∨ localEntry env key files = some data) ∧
      ∀ miss, (lookupTiers env key session miss).run files = ((.ok ⟨data, true⟩, after), files) := by
  by_cases hmemory : MemoryServes env key session
  · obtain ⟨data, after, hdata, hserved⟩ := lookupMemory_served hclean.1 hmemory
    refine ⟨data, after, Or.inl hdata, fun miss => ?_⟩
    rw [lookupTiers, hserved]
    rfl
  · have hstate := (lookupMemory_miss hclean.1 hmemory
      fun _ _ => .done (.error ioFailure, session)).2
    obtain ⟨data, after, hdata, hserved⟩ := lookupLocal_served hstate (hclean.2 hmemory)
      (hserves.resolve_left hmemory)
    refine ⟨data, after, Or.inr hdata, fun miss => ?_⟩
    rw [lookupTiers, (lookupMemory_miss hclean.1 hmemory _).1]
    exact hserved miss

theorem lookupTiers_miss (hclean : TiersClean env key session files)
    (hserves : ¬ TiersServe env key session files) :
    Consistent env (afterTiers env key session files).1 (afterTiers env key session files).2 ∧
      ∀ miss, (lookupTiers env key session miss).run files =
        (miss (afterTiers env key session files).1 (afterTiers env key session files).2).run
          files := by
  rw [TiersServe, not_or] at hserves
  have hstate := (lookupMemory_miss hclean.1 hserves.1
    fun _ _ => .done (.error ioFailure, session)).2
  have hlocal := fun miss => lookupLocal_miss hstate (hclean.2 hserves.1) hserves.2 miss
  refine ⟨(hlocal fun _ _ => .done (.error ioFailure, session)).2, fun miss => ?_⟩
  rw [lookupTiers, (lookupMemory_miss hclean.1 hserves.1 _).1]
  exact (hlocal miss).1

section Remote

variable {known : Option String} {miss : Option String → Session → Prog Outcome}

theorem lookupRemote_none (h : remoteBytes env key = none) :
    lookupRemote env key known session miss = miss known session := by
  rw [remoteBytes] at h
  rw [lookupRemote, h]

theorem lookupRemote_decoded {bytes : List UInt8} {data : Entry}
    (hbytes : remoteBytes env key = some bytes) (hdata : decode env bytes = .ok data) :
    lookupRemote env key known session miss =
      cacheEntryIsServable env data known session fun servable known session =>
        if servable then
          .write (entryPath key) bytes fun written =>
            if written then .done (.ok ⟨data, true⟩, session.remember key bytes data)
            else .done (.error ioFailure, session)
        else miss known session := by
  rw [remoteBytes] at hbytes
  rw [decode] at hdata
  rw [lookupRemote, hbytes]
  dsimp only
  rw [hdata]

/-- Bytes that cannot be decoded or checked fail the retrieval. -/
theorem lookupRemote_error (hstate : Consistent env known session)
    (h : ¬ RemoteClean env key) :
    ∃ failure, lookupRemote env key known session miss = .done (.error failure, session) := by
  simp only [RemoteClean, not_forall] at h
  obtain ⟨bytes, hbytes, hbad⟩ := h
  cases hdata : decode env bytes with
  | error failure =>
      refine ⟨failure, ?_⟩
      rw [remoteBytes] at hbytes
      rw [decode] at hdata
      rw [lookupRemote, hbytes]
      dsimp only
      rw [hdata]
  | ok data =>
      obtain ⟨failure, herror⟩ :=
        cacheEntryIsServable_error hstate fun hpasses => hbad ⟨data, hdata, hpasses⟩
      exact ⟨failure, by rw [lookupRemote_decoded hbytes hdata, herror]⟩

theorem lookupRemote_served (hstate : Consistent env known session) (hclean : RemoteClean env key)
    (hserves : RemoteServes env key) (hstorable : Storable files key) :
    ∃ bytes data after files', remoteBytes env key = some bytes ∧ decode env bytes = .ok data ∧
      (lookupRemote env key known session miss).run files =
        ((.ok ⟨data, true⟩, after), files') := by
  obtain ⟨bytes, data, hbytes, hdata, hservable⟩ := hserves
  obtain ⟨data', hdata', hpasses⟩ := hclean bytes hbytes
  obtain rfl : data = data' := Except.ok.inj (hdata.symm.trans hdata')
  refine ⟨bytes, data, (afterCheck env data (known, session)).2.remember key bytes data,
    files.set (entryPath key) (.file (some bytes)), hbytes, hdata, ?_⟩
  rw [lookupRemote_decoded hbytes hdata, cacheEntryIsServable_eq hstate hpasses, hservable,
    if_pos rfl, Prog.run, hstorable.write]
  rfl

theorem lookupRemote_miss {bytes : List UInt8} {data : Entry}
    (hstate : Consistent env known session) (hbytes : remoteBytes env key = some bytes)
    (hdata : decode env bytes = .ok data) (hpasses : CheckPasses env data)
    (hservable : servable env data = false) :
    lookupRemote env key known session miss =
      miss (afterCheck env data (known, session)).1 (afterCheck env data (known, session)).2 := by
  rw [lookupRemote_decoded hbytes hdata, cacheEntryIsServable_eq hstate hpasses, hservable]
  rfl

end Remote

end Whole

/-! ## Availability -/

section Availability

variable {env : Env} {key : String} {session : Session} {files : Files}

theorem SameEffect.refl (result : Outcome × Files) : SameEffect result result := by
  obtain ⟨⟨answer, session⟩, files⟩ := result
  cases answer with
  | error failure => exact .failed _ _ _ _ _ _
  | ok retrieved => exact .returned retrieved files rfl rfl

theorem SameEffect.retrieved_eq {retrieved retrieved' : Retrieved} {session session' : Session}
    {files files' : Files}
    (h : SameEffect ((.ok retrieved, session), files) ((.ok retrieved', session'), files')) :
    retrieved = retrieved' := by
  cases h
  rfl

theorem consistent_arrived {known : Option String} (h : Consistent env known session)
    (derived : Bool) : Consistent env known (arrived derived session) := by
  cases derived with
  | true => exact h
  | false => exact h.imp_right fun ⟨hknown, _, hcheckout⟩ => ⟨hknown, rfl, hcheckout⟩

/-- What is known changes nothing: an entry gets the fingerprint of where the workspace is. -/
theorem fingerprinted_eq {known : Option String} (h : Consistent env known session) (data : Entry) :
    fingerprinted env data known session =
      if env.config.dependencyFingerprint && data.dependencyFingerprint.isNone then
        { data with
          dependencyFingerprint := env.answers.dependencyFingerprint session.checkedOut }
      else data := by
  have hor : known.or (env.answers.dependencyFingerprint session.checkedOut) =
      env.answers.dependencyFingerprint session.checkedOut := by
    obtain rfl | ⟨rfl, hat, -⟩ := h
    · rfl
    · rw [hat, currentFingerprint]
      exact Option.or_self
  rw [fingerprinted, hor]

theorem afterCheck_memory (env : Env) (data : Entry) (state : Option String × Session) :
    (afterCheck env data state).2.memory = state.2.memory ∧
      (afterCheck env data state).2.puts = state.2.puts := by
  rw [afterCheck]
  split
  · exact ⟨rfl, rfl⟩
  · exact ⟨rfl, rfl⟩

/-- Stored from two sessions with the same tiers, an entry has the same effect. -/
theorem sameEffect_stored {session session' : Session} (hmemory : session.memory = session'.memory)
    (hputs : session.puts = session'.puts) (derived : Bool) (data : Entry) (files : Files) :
    SameEffect ((.ok ⟨data, false⟩, storedSession env key data (arrived derived session)), files)
      ((.ok ⟨data, false⟩, storedSession env key data (arrived derived session')), files) := by
  have harrived : ∀ session : Session, (arrived derived session).memory = session.memory ∧
      (arrived derived session).puts = session.puts := by
    intro session
    cases derived <;> exact ⟨rfl, rfl⟩
  apply SameEffect.returned
  · show MemoryTier.call _ _ = MemoryTier.call _ _
    show (arrived derived session).memory.call _ = (arrived derived session').memory.call _
    rw [(harrived session).1, (harrived session').1, hmemory]
  · show (arrived derived session).puts ++ _ = (arrived derived session').puts ++ _
    rw [(harrived session).2, (harrived session').2, hputs]

theorem remoteBytes_withoutShared (env : Env) (key : String) :
    remoteBytes (withoutShared env) key = none := by
  rw [remoteBytes, withoutShared]
  cases env.remote <;> rfl

theorem storeEntry_withoutShared (env : Env) : storeEntry (withoutShared env) = storeEntry env := by
  funext key data known session
  have hremote : (withoutShared env).remote.isSome = env.remote.isSome := Option.isSome_map
  unfold storeEntry
  rw [hremote]
  rfl

variable [HashFunction Sha256Bytes] {modified : PathSet} {base : Option Entry}

theorem generateMissing_withoutShared (env : Env) :
    generateMissing (withoutShared env) = generateMissing env := by
  unfold generateMissing generateEntry
  rw [storeEntry_withoutShared]
  rfl

/-- Whether an entry that is generated after the shared one was checked is the one that would
have been generated otherwise. -/
theorem sameEffect_generated_iff {data made : Entry} {derived : Bool}
    {state : Option String × Session} (hstate : Consistent env state.1 state.2)
    (hpasses : CheckPasses env data) (hmade : madeData env modified base = .ok (made, derived))
    (hcancelled : env.answers.checkCancelled = .ok ()) (hstorable : Storable files key) :
    SameEffect
        ((generateMissing env modified base key (afterCheck env data state).1
          (afterCheck env data state).2).run files)
        ((generateMissing env modified base key state.1 state.2).run files) ↔
      (needsCheck env data = true → derived = true → made.dependencyFingerprint = none →
        currentFingerprint env = env.answers.dependencyFingerprint state.2.checkedOut) := by
  have hchecked := consistent_afterCheck hstate hpasses
  rw [run_generateMissing env hmade hcancelled hstorable,
    run_generateMissing env hmade hcancelled hstorable]
  dsimp only
  rw [fingerprinted_eq (consistent_arrived hchecked derived),
    fingerprinted_eq (consistent_arrived hstate derived)]
  constructor
  · intro hsame hneeds hderived hnone
    subst hderived
    have hguard : env.config.dependencyFingerprint = true := by
      rw [needsCheck, Bool.and_eq_true] at hneeds
      exact hneeds.1
    have hdata := congrArg (fun retrieved => retrieved.data.dependencyFingerprint) hsame.retrieved_eq
    simpa [hguard, hnone, arrived, afterCheck, hneeds, currentFingerprint] using hdata
  · intro hkept
    have hdata : (if env.config.dependencyFingerprint && made.dependencyFingerprint.isNone then
        { made with
          dependencyFingerprint := env.answers.dependencyFingerprint
            (arrived derived (afterCheck env data state).2).checkedOut }
        else made) =
        if env.config.dependencyFingerprint && made.dependencyFingerprint.isNone then
          { made with
            dependencyFingerprint := env.answers.dependencyFingerprint
              (arrived derived state.2).checkedOut }
        else made := by
      split
      case isFalse => rfl
      case isTrue hfills =>
        rw [Bool.and_eq_true, Option.isNone_iff_eq_none] at hfills
        cases derived with
        | false => rfl
        | true =>
            by_cases hneeds : needsCheck env data = true
            · rw [afterCheck, if_pos hneeds]
              show { made with dependencyFingerprint := currentFingerprint env } = _
              rw [hkept hneeds rfl hfills.2]
              rfl
            · rw [afterCheck, if_neg hneeds]
    rw [hdata]
    obtain ⟨hmemory, hputs⟩ := afterCheck_memory env data state
    exact sameEffect_stored hmemory hputs derived _ _

/-- The tiers of a retrieval, with what it does after the two it has to itself. -/
theorem lookup_eq (env : Env) (modified : PathSet) (base : Option Entry) (key : String)
    (session : Session) :
    lookup env modified base key session = lookupTiers env key session fun known session =>
      lookupRemote env key known session fun known session =>
        generateMissing env modified base key known session :=
  rfl

theorem lookup_withoutShared (env : Env) (modified : PathSet) (base : Option Entry) (key : String)
    (session : Session) :
    lookup (withoutShared env) modified base key session =
      lookupTiers env key session (generateMissing env modified base key) := by
  have hremote : ∀ known session, lookupRemote (withoutShared env) key known session
      (fun known session => generateMissing (withoutShared env) modified base key known session) =
        generateMissing env modified base key known session := by
    intro known session
    rw [lookupRemote_none (remoteBytes_withoutShared env key), generateMissing_withoutShared]
  rw [lookup_eq]
  simp only [hremote]
  rfl

/-- A retrieval whose revision can be generated succeeds, and shared content that cannot be served
counts as a miss. -/
structure LookupDegrades (env : Env) (modified : PathSet) (base : Option Entry) (key : String)
    (session : Session) (files : Files) : Prop where
  available : Generates env modified base key session files →
    ∃ retrieved after files', (lookup env modified base key session).run files =
      ((.ok retrieved, after), files') ∧ Held env key session files modified base retrieved
  miss : ¬ RemoteServes env key →
    SameEffect ((lookup env modified base key session).run files)
      ((lookup (withoutShared env) modified base key session).run files)

theorem lookupDegrades_of_not_tiersClean (h : ¬ TiersClean env key session files) :
    LookupDegrades env modified base key session files ↔
      (Generates env modified base key session files →
        Clean env key session files modified base) := by
  obtain ⟨failure, after, herror⟩ := lookupTiers_error h
  constructor
  · intro hdegrades hgenerates
    obtain ⟨retrieved, after', files', hrun, -⟩ := hdegrades.available hgenerates
    rw [lookup_eq, herror] at hrun
    cases hrun
  · intro hclean
    constructor
    · exact fun hgenerates => absurd (hclean hgenerates).tiers h
    · intro _
      rw [lookup_eq, lookup_withoutShared, herror, herror]
      exact .failed _ _ _ _ _ _

theorem lookupDegrades_of_served (hclean : TiersClean env key session files)
    (hserves : TiersServe env key session files) :
    LookupDegrades env modified base key session files ∧
      Clean env key session files modified base := by
  obtain ⟨data, after, hdata, hserved⟩ := lookupTiers_served hclean hserves
  constructor
  · constructor
    · intro _
      refine ⟨_, _, _, hserved _, ?_⟩
      rcases hdata with hdata | hdata
      · exact .memory hdata
      · exact .directory hdata
    · intro _
      rw [lookup_eq, lookup_withoutShared, hserved, hserved]
      exact .returned _ _ rfl rfl
  · exact ⟨hclean, fun h => absurd hserves h, fun h => absurd hserves h⟩

/-- Whatever it knows, a retrieval that generates returns what the generation made. -/
theorem run_generates (hgenerates : Generates env modified base key session files)
    (known : Option String) (session' : Session) :
    ∃ retrieved after files', (generateMissing env modified base key known session').run files =
      ((.ok retrieved, after), files') ∧ Held env key session files modified base retrieved := by
  obtain ⟨⟨⟨made, derived⟩, hmade⟩, hcancelled, hstorable⟩ :=
    (generates_iff env modified base key session files).mp hgenerates
  exact ⟨_, _, _, run_generateMissing env hmade hcancelled hstorable known session',
    .generated hmade known _⟩

theorem lookupDegrades_of_nothing_shared (hclean : TiersClean env key session files)
    (hserves : ¬ TiersServe env key session files) (hbytes : remoteBytes env key = none) :
    LookupDegrades env modified base key session files ∧
      Clean env key session files modified base := by
  obtain ⟨-, hmiss⟩ := lookupTiers_miss hclean hserves
  have hrun : (lookup env modified base key session).run files =
      (generateMissing env modified base key (afterTiers env key session files).1
        (afterTiers env key session files).2).run files := by
    rw [lookup_eq, hmiss, lookupRemote_none hbytes]
  constructor
  · constructor
    · intro hgenerates
      rw [hrun]
      exact run_generates hgenerates _ _
    · intro _
      rw [hrun, lookup_withoutShared, hmiss]
      exact SameEffect.refl _
  · refine ⟨hclean, fun _ bytes h => ?_, fun _ bytes data made h => ?_⟩
    · rw [hbytes] at h
      cases h
    · rw [hbytes] at h
      cases h

theorem lookupDegrades_of_not_remoteClean (hclean : TiersClean env key session files)
    (hserves : ¬ TiersServe env key session files) (hremote : ¬ RemoteClean env key) :
    LookupDegrades env modified base key session files ↔
      (Generates env modified base key session files →
        Clean env key session files modified base) := by
  obtain ⟨hstate, hmiss⟩ := lookupTiers_miss hclean hserves
  obtain ⟨failure, herror⟩ := @lookupRemote_error env key _ _
    (generateMissing env modified base key) hstate hremote
  have hrun : (lookup env modified base key session).run files =
      ((.error failure, (afterTiers env key session files).2), files) := by
    rw [lookup_eq, hmiss, herror]
    rfl
  constructor
  · intro hdegrades hgenerates
    obtain ⟨retrieved, after', files', hok, -⟩ := hdegrades.available hgenerates
    rw [hrun] at hok
    cases hok
  · intro hclean'
    have hgenerates : ¬ Generates env modified base key session files :=
      fun hgenerates => hremote ((hclean' hgenerates).remote hserves)
    constructor
    · exact fun h => absurd h hgenerates
    · intro _
      obtain ⟨failure', after, files', hfails⟩ := run_generateMissing_error env hgenerates
        (afterTiers env key session files).1 (afterTiers env key session files).2
      rw [hrun, lookup_withoutShared, hmiss, hfails]
      exact .failed _ _ _ _ _ _

theorem lookupDegrades_of_remoteServes (hclean : TiersClean env key session files)
    (hserves : ¬ TiersServe env key session files) (hremote : RemoteClean env key)
    (hserved : RemoteServes env key) :
    LookupDegrades env modified base key session files ∧
      Clean env key session files modified base := by
  obtain ⟨hstate, hmiss⟩ := lookupTiers_miss hclean hserves
  constructor
  · constructor
    · intro hgenerates
      obtain ⟨-, -, hstorable⟩ := (generates_iff env modified base key session files).mp hgenerates
      obtain ⟨bytes, data, after, files', hbytes, hdata, hrun⟩ :=
        @lookupRemote_served env key _ files _ (generateMissing env modified base key) hstate hremote
          hserved hstorable
      refine ⟨⟨data, true⟩, after, files', ?_, .remote hbytes hdata⟩
      rw [lookup_eq, hmiss]
      exact hrun
    · exact fun h => absurd hserved h
  · refine ⟨hclean, fun _ => hremote, fun _ bytes data made hbytes hdata _ hservable => ?_⟩
    obtain ⟨bytes', data', hbytes', hdata', hservable'⟩ := hserved
    obtain rfl : bytes = bytes' := Option.some.inj (hbytes.symm.trans hbytes')
    obtain rfl : data = data' := Except.ok.inj (hdata.symm.trans hdata')
    rw [hservable'] at hservable
    cases hservable

theorem lookupDegrades_of_unservable {bytes : List UInt8} {data : Entry}
    (hclean : TiersClean env key session files) (hserves : ¬ TiersServe env key session files)
    (hremote : RemoteClean env key) (hbytes : remoteBytes env key = some bytes)
    (hdata : decode env bytes = .ok data) (hservable : servable env data = false) :
    LookupDegrades env modified base key session files ↔
      (Generates env modified base key session files →
        Clean env key session files modified base) := by
  obtain ⟨hstate, hmiss⟩ := lookupTiers_miss hclean hserves
  obtain ⟨data', hdata', hpasses⟩ := hremote bytes hbytes
  obtain rfl : data = data' := Except.ok.inj (hdata.symm.trans hdata')
  have hunserved : ¬ RemoteServes env key := by
    rintro ⟨bytes', data', hbytes', hdata', hservable'⟩
    obtain rfl : bytes = bytes' := Option.some.inj (hbytes.symm.trans hbytes')
    obtain rfl : data = data' := Except.ok.inj (hdata.symm.trans hdata')
    rw [hservable] at hservable'
    cases hservable'
  have hrun : (lookup env modified base key session).run files =
      (generateMissing env modified base key
        (afterCheck env data (afterTiers env key session files)).1
        (afterCheck env data (afterTiers env key session files)).2).run files := by
    rw [lookup_eq, hmiss, lookupRemote_miss hstate hbytes hdata hpasses hservable]
  have hrun' : (lookup (withoutShared env) modified base key session).run files =
      (generateMissing env modified base key (afterTiers env key session files).1
        (afterTiers env key session files).2).run files := by
    rw [lookup_withoutShared, hmiss]
  by_cases hgenerates : Generates env modified base key session files
  · obtain ⟨⟨⟨made, derived⟩, hmade⟩, hcancelled, hstorable⟩ :=
      (generates_iff env modified base key session files).mp hgenerates
    have hsame := sameEffect_generated_iff hstate hpasses hmade hcancelled hstorable
    rw [← hrun, ← hrun'] at hsame
    constructor
    · intro hdegrades _
      refine ⟨hclean, fun _ => hremote, fun _ => ?_⟩
      intro bytes' data' made' hbytes' hdata' hneeds _ hmade' hnone
      obtain rfl : bytes = bytes' := Option.some.inj (hbytes.symm.trans hbytes')
      obtain rfl : data = data' := Except.ok.inj (hdata.symm.trans hdata')
      rw [hmade] at hmade'
      cases hmade'
      exact hsame.mp (hdegrades.miss hunserved) hneeds rfl hnone
    · intro hclean'
      constructor
      · intro _
        rw [hrun]
        exact run_generates hgenerates _ _
      · intro _
        apply hsame.mpr
        intro hneeds hderived hnone
        subst hderived
        exact (hclean' hgenerates).fingerprint hserves bytes data made hbytes hdata hneeds hservable
          hmade hnone
  · apply iff_of_true
    · constructor
      · exact fun h => absurd h hgenerates
      · intro _
        obtain ⟨failure, after, files₁, hfails⟩ := run_generateMissing_error env hgenerates
          (afterCheck env data (afterTiers env key session files)).1
          (afterCheck env data (afterTiers env key session files)).2
        obtain ⟨failure', after', files₂, hfails'⟩ := run_generateMissing_error env hgenerates
          (afterTiers env key session files).1 (afterTiers env key session files).2
        rw [hrun, hrun', hfails, hfails']
        exact .failed _ _ _ _ _ _
    · exact fun h => absurd h hgenerates

theorem lookupDegrades_iff (env : Env) (modified : PathSet) (base : Option Entry) (key : String)
    (session : Session) (files : Files) :
    LookupDegrades env modified base key session files ↔
      (Generates env modified base key session files →
        Clean env key session files modified base) := by
  by_cases hclean : TiersClean env key session files
  · by_cases hserves : TiersServe env key session files
    · obtain ⟨hdegrades, hclean'⟩ :=
        @lookupDegrades_of_served env key session files _ modified base hclean hserves
      exact iff_of_true hdegrades fun _ => hclean'
    · cases hbytes : remoteBytes env key with
      | none =>
          obtain ⟨hdegrades, hclean'⟩ := @lookupDegrades_of_nothing_shared env key session files _
            modified base hclean hserves hbytes
          exact iff_of_true hdegrades fun _ => hclean'
      | some bytes =>
          by_cases hremote : RemoteClean env key
          · obtain ⟨data, hdata, -⟩ := hremote bytes hbytes
            cases hservable : servable env data with
            | true =>
                obtain ⟨hdegrades, hclean'⟩ := @lookupDegrades_of_remoteServes env key session files
                  _ modified base hclean hserves hremote ⟨bytes, data, hbytes, hdata, hservable⟩
                exact iff_of_true hdegrades fun _ => hclean'
            | false =>
                exact lookupDegrades_of_unservable hclean hserves hremote hbytes hdata hservable
          · exact lookupDegrades_of_not_remoteClean hclean hserves hremote
  · exact lookupDegrades_of_not_tiersClean hclean

/-- What a shared tier is to cost: a retrieval whose revision can be generated returns an entry
filed under its key, or the generated one, and shared content that cannot be served has the
effect of a miss. -/
structure Degrades (env : Env) (modified : PathSet) (base : Option Entry) (session : Session)
    (files : Files) : Prop where
  available : ∀ tree, env.answers.resolveTree = .ok tree →
    let key := cacheKey Sha256Bytes tree env.config.fingerprint modified
    Generates env modified base key session files →
      ∃ retrieved after files', (getHashesLocked env modified base session).run files =
        ((.ok retrieved, after), files') ∧ Held env key session files modified base retrieved
  miss : (∀ tree, env.answers.resolveTree = .ok tree →
      ¬ RemoteServes env (cacheKey Sha256Bytes tree env.config.fingerprint modified)) →
    SameEffect ((getHashesLocked env modified base session).run files)
      ((getHashesLocked (withoutShared env) modified base session).run files)

/-- Retrievals keep to it exactly when the revision cannot be generated, or every tier they come
to can be read, decoded and checked. -/
theorem degrades_iff_clean (env : Env) (modified : PathSet) (base : Option Entry)
    (session : Session) (files : Files) :
    Degrades env modified base session files ↔
      ∀ tree, env.answers.resolveTree = .ok tree →
        let key := cacheKey Sha256Bytes tree env.config.fingerprint modified
        Generates env modified base key session files →
          Clean env key session files modified base := by
  cases htree : env.answers.resolveTree with
  | error failure =>
      apply iff_of_true
      · have hrun : ∀ env : Env, env.answers.resolveTree = .error failure →
            (getHashesLocked env modified base session).run files =
              ((.error failure, session), files) := by
          intro env h
          rw [getHashesLocked, h]
          rfl
        constructor
        · intro tree h
          rw [htree] at h
          cases h
        · intro _
          rw [hrun env htree, hrun (withoutShared env) htree]
          exact SameEffect.refl _
      · intro tree h
        cases h
  | ok tree =>
      have hrun : ∀ env : Env, env.answers.resolveTree = .ok tree →
          getHashesLocked env modified base session = lookup env modified base
            (cacheKey Sha256Bytes tree env.config.fingerprint modified) session := by
        intro env h
        rw [getHashesLocked, h]
      have hlookup := lookupDegrades_iff env modified base
        (cacheKey Sha256Bytes tree env.config.fingerprint modified) session files
      constructor
      · intro hdegrades tree' htree'
        cases htree'
        apply hlookup.mp
        constructor
        · have havailable := hdegrades.available tree htree
          rw [hrun env htree] at havailable
          exact havailable
        · intro hserves
          have hmiss := hdegrades.miss fun tree' htree' => by
            rw [htree] at htree'
            cases htree'
            exact hserves
          rw [hrun env htree, hrun (withoutShared env) htree] at hmiss
          exact hmiss
      · intro hclean
        have hdegrades := hlookup.mpr (hclean tree rfl)
        constructor
        · intro tree' htree'
          rw [htree] at htree'
          cases htree'
          rw [hrun env htree]
          exact hdegrades.available
        · intro hserves
          rw [hrun env htree, hrun (withoutShared env) htree]
          exact hdegrades.miss (hserves tree htree)

end Availability

/-- A server whose shared tier holds an object that decompresses to no entry. -/
def corruptEnv : Env :=
  { emptyEnv with
    remote := some ⟨fun name => if name = "t.f.json.gz" then .found [0] else .missing⟩ }

def noFiles : Files where
  node := fun _ => .absent
  writable := true

/-- The retrieval fails on the shared object, though without it the revision is generated. -/
theorem corruptEnv_fails :
    (∃ failure, ((@getHashesLocked corruptEnv zeroDigest .empty none emptySession).run
      noFiles).1.1 = .error failure) ∧
    (∃ retrieved, ((@getHashesLocked (withoutShared corruptEnv) zeroDigest .empty none
      emptySession).run noFiles).1.1 = .ok retrieved) ∧
    ¬ @Degrades zeroDigest corruptEnv .empty none emptySession noFiles := by
  have hfails : ∃ failure, ((@getHashesLocked corruptEnv zeroDigest .empty none emptySession).run
      noFiles).1.1 = .error failure := ⟨_, rfl⟩
  refine ⟨hfails, ⟨_, rfl⟩, ?_⟩
  intro hdegrades
  obtain ⟨retrieved, after, files', hrun, -⟩ :=
    @Degrades.available zeroDigest _ _ _ _ _ hdegrades "t" rfl ⟨_, _, _, rfl⟩
  obtain ⟨failure, hfailure⟩ := hfails
  rw [hrun] at hfailure
  cases hfailure

end BazelDiff.Server.Degradation
