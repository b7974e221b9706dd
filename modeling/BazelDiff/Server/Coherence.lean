/-
# What a fleet serves was made for the revision

An entry that is returned for a revision may come from memory, from a cache directory or from the
shared tier, and may have been made by another server long ago. It was made for that revision all
the same: by a generation, or derived from an entry that was itself returned before. The proof
follows the key. Every file, object and remembered entry under a key holds an entry filed for the
revisions with that key, no step of a retrieval breaks this, and a key tells its revision.
-/

import BazelDiff.Lib.FileInvariant
import BazelDiff.Server.Degradation
import BazelDiff.Server.Fleet

namespace BazelDiff.Server.Fleet

open Degradation Retrieval
open UnixPath (PathSet)

/-! ## Names, memory and failures -/

theorem entryPath_injective : Function.Injective entryPath := by
  intro key other h
  rw [entryPath, entryPath, String.append_left_inj] at h
  exact h

theorem temporaryPath_injective : Function.Injective temporaryPath := by
  intro key other h
  rw [temporaryPath, temporaryPath, String.append_left_inj] at h
  exact h

theorem entryPath_ne (key other : String) : entryPath key ≠ temporaryPath other := by
  intro h
  have hlast := congrArg (fun path => path.toList.getLast?) h
  simp [entryPath, temporaryPath] at hlast

theorem plain_ne_packed (key other : String) : key ++ ".json" ≠ other ++ ".json.gz" := by
  intro h
  have hlast := congrArg (fun name => name.toList.getLast?) h
  simp at hlast

/-- The memory tier keeps what it held and takes what it is given. -/
theorem mem_call {tier : MemoryTier Entry} {call : MemoryCall Entry} {entry : MemoryEntry Entry}
    (hmem : entry ∈ (tier.call call).cache.entries) :
    entry ∈ tier.cache.entries ∨ ∃ bytes, call = .insert entry.key bytes entry.data := by
  obtain ⟨next, hcall⟩ := Option.isSome_iff_exists.mp (tier.call_isSome call)
  have hnext : (tier.call call).cache = next := by
    show (tier.cache.call call).get _ = next
    exact Option.get_of_eq_some _ hcall
  rw [hnext] at hmem
  cases call with
  | get key =>
      rw [MemoryCache.call, Option.some.injEq] at hcall
      subst hcall
      rcases MemoryCache.get_cases tier.accounted.keys key with
        ⟨-, hget⟩ | ⟨front, found, back, hsplit, -, hget⟩
      · rw [hget] at hmem
        exact Or.inl hmem
      · rw [hget] at hmem
        left
        rw [hsplit]
        simp only [List.mem_append, List.mem_cons] at hmem ⊢
        tauto
  | insert key bytes data =>
      by_cases hfits : bytes ≤ tier.cache.budget
      · obtain ⟨kept, hkept, hentries⟩ :=
          MemoryCache.insert_entries tier.accounted.keys hfits hcall
        rw [hentries] at hmem
        rcases List.mem_append.mp hmem with hold | hnew
        · left
          exact (MemoryCache.others_sublist tier.cache key).subset (hkept.subset hold)
        · cases List.mem_singleton.mp hnew
          exact Or.inr ⟨bytes, rfl⟩
      · rw [MemoryCache.call, MemoryCache.insert, if_pos (Nat.lt_of_not_le hfits),
          Option.some.injEq] at hcall
        subst hcall
        exact Or.inl hmem

/-- A full generation that fails changes at most where the workspace is. -/
theorem generateEntry_error {env : Env} {key : String} {tree : Option TreeIndex}
    {known : Option String} {session : Session} {failure : Failure}
    (hfailed : fullData env tree = .error failure) :
    generateEntry env key tree known session = .done (.error failure, session) ∨
      generateEntry env key tree known session = .done (.error failure, arrived false session) := by
  rw [fullData] at hfailed
  rw [generateEntry, checkout]
  cases hcheckout : env.answers.checkout with
  | error other =>
      rw [hcheckout] at hfailed
      cases hfailed
      exact Or.inl rfl
  | ok _ =>
      rw [hcheckout] at hfailed
      cases hgenerated : env.answers.generateHashes with
      | error other =>
          rw [hgenerated] at hfailed
          cases hfailed
          exact Or.inr rfl
      | ok data =>
          rw [hgenerated] at hfailed
          have hchecked : (tree.elim (.ok ()) (env.answers.checkTrackedPackages data) >>=
              fun _ => pure (data, false) : Result (Entry × Bool)) = .error failure := hfailed
          dsimp only
          cases hpackages : tree.elim (.ok ()) (env.answers.checkTrackedPackages data) with
          | error other =>
              rw [hpackages] at hchecked
              cases hchecked
              exact Or.inr rfl
          | ok _ =>
              rw [hpackages] at hchecked
              cases hchecked

section Fleet

variable [HashFunction Sha256Bytes]

/-! ## Entries and where they may be -/

/-- The entries made for a request: what a generation made, from a base that was itself filed, or
what the bytes that were stored for it read back as. -/
inductive Filed (asked : Request → Prop) : Request → Entry → Prop
  | made {request origin : Request} {data : Entry} {derived : Bool} {known : Option String}
      {session : Session} (hasked : asked request)
      (hbase : ∀ base, request.base = some base → Filed asked origin base)
      (hmade : madeData request.env request.modified request.base = .ok (data, derived))
      (hknown : Degradation.Consistent request.env known session) :
      Filed asked request (fingerprinted request.env data known (arrived derived session))
  | reread {request : Request} {data read : Entry} (h : Filed asked request data)
      (hread : decode request.env (storedBytes request.env data) = .ok read) :
      Filed asked request read

theorem Filed.asked {asked : Request → Prop} {request : Request} {data : Entry}
    (h : Filed asked request data) : asked request := by
  induction h with
  | made hasked _ _ _ _ => exact hasked
  | reread _ _ ih => exact ih

namespace Deployment

variable (fleet : Deployment)

/-- The entry was made for a revision with the key. -/
def FiledUnder (key : String) (data : Entry) : Prop :=
  ∃ origin, origin.Keyed key ∧ Filed fleet.asked origin data

/-- Bytes that hold no other entry than one filed under the key. -/
def FiledBytes (key : String) (bytes : List UInt8) : Prop :=
  ∀ data, HashFileData.fromSlice fleet.formats.parse bytes = .ok data → fleet.FiledUnder key data

/-- What may be in the files of a key. -/
def FiledFile (path : String) (bytes : List UInt8) : Prop :=
  ∀ key, path = entryPath key ∨ path = temporaryPath key → fleet.FiledBytes key bytes

/-- An object of the shared tier is a compressed entry, under its key. -/
def FiledObject (object : String × List UInt8) : Prop :=
  ∃ key, object.1 = key ++ ".json.gz" ∧ ∀ bytes, fleet.formats.gunzip object.2 = some bytes →
    fleet.FiledBytes key bytes

def FiledMemory (memory : MemoryTier Entry) : Prop :=
  ∀ entry ∈ memory.cache.entries, fleet.FiledUnder entry.key entry.data

structure FiledSession (session : Session) : Prop where
  memory : fleet.FiledMemory session.memory
  puts : ∀ object ∈ session.puts, fleet.FiledObject object

/-- An answer is filed under the request's key, and one from the cache may be served. -/
structure Answered (request : Request) (retrieved : Retrieved) : Prop where
  filed : ∃ key, request.Keyed key ∧ fleet.FiledUnder key retrieved.data
  servable : retrieved.cacheHit = true → servable request.env retrieved.data = true

/-- How a retrieval ends. -/
structure Ended (request : Request) (outcome : Outcome) : Prop where
  session : fleet.FiledSession outcome.2
  answered : ∀ retrieved, outcome.1 = .ok retrieved → fleet.Answered request retrieved

end Deployment

variable {fleet : Deployment} {key : String}

theorem filedFile_entryPath {bytes : List UInt8} :
    fleet.FiledFile (entryPath key) bytes ↔ fleet.FiledBytes key bytes := by
  constructor
  · intro h
    exact h key (Or.inl rfl)
  · rintro h other (hother | hother)
    · cases entryPath_injective hother
      exact h
    · exact absurd hother (entryPath_ne key other)

theorem filedFile_temporaryPath {bytes : List UInt8} :
    fleet.FiledFile (temporaryPath key) bytes ↔ fleet.FiledBytes key bytes := by
  constructor
  · intro h
    exact h key (Or.inr rfl)
  · rintro h other (hother | hother)
    · exact absurd hother.symm (entryPath_ne other key)
    · cases temporaryPath_injective hother
      exact h

/-! ### The tiers -/

/-- A key's bytes on the shared tier are filed under it, if all objects there are. -/
theorem filedBytes_get {remote : RemoteCache}
    (hremote : ∀ name bytes, remote.fetch name = .found bytes → fleet.FiledObject (name, bytes))
    {bytes : List UInt8} (hget : remote.get fleet.formats key = some bytes) :
    fleet.FiledBytes key bytes := by
  rw [RemoteCache.get] at hget
  cases hpacked : remote.fetch (key ++ ".json.gz") with
  | found packed =>
      rw [hpacked] at hget
      obtain ⟨other, hname, hfiled⟩ := hremote _ packed hpacked
      cases String.append_left_inj _ |>.mp hname
      exact hfiled bytes hget
  | missing =>
      rw [hpacked] at hget
      cases hplain : remote.fetch (key ++ ".json") with
      | found plain =>
          obtain ⟨other, hname, -⟩ := hremote _ plain hplain
          exact absurd hname (plain_ne_packed key other)
      | missing =>
          rw [hplain] at hget
          cases hget
      | failed =>
          rw [hplain] at hget
          cases hget
  | failed =>
      rw [hpacked] at hget
      cases hget

theorem filedObject_put {bytes : List UInt8} (hfiled : fleet.FiledBytes key bytes) :
    ∀ object ∈ RemoteCache.put fleet.formats key bytes, fleet.FiledObject object := by
  intro object hmem
  rw [RemoteCache.put] at hmem
  cases hgzip : fleet.formats.gzip bytes with
  | none =>
      rw [hgzip] at hmem
      cases hmem
  | some packed =>
      rw [hgzip, List.mem_singleton] at hmem
      subst hmem
      refine ⟨key, rfl, fun unpacked hunpacked => ?_⟩
      rw [fleet.gunzip_gzip bytes packed hgzip] at hunpacked
      cases hunpacked
      exact hfiled

namespace Deployment.FiledSession

variable {session : Session}

theorem lookUp (h : fleet.FiledSession session) (key : String) :
    fleet.FiledSession (session.lookUp key).2 where
  memory entry hmem := by
      rcases mem_call hmem with hold | ⟨bytes, hcall⟩
      · exact h.memory entry hold
      · cases hcall
  puts := h.puts

/-- What is found in memory for a key is filed under it. -/
theorem found (h : fleet.FiledSession session) {data : Entry}
    (hfound : (session.lookUp key).1 = some data) : fleet.FiledUnder key data := by
  rcases MemoryCache.get_cases session.memory.accounted.keys key with
    ⟨-, hget⟩ | ⟨front, entry, back, hsplit, hkey, hget⟩
  · have hnone : (session.lookUp key).1 = none := by rw [Session.lookUp, hget]
    rw [hnone] at hfound
    cases hfound
  · have hsome : (session.lookUp key).1 = some entry.data := by rw [Session.lookUp, hget]
    rw [hsome] at hfound
    cases hfound
    have hfiled := h.memory entry (by rw [hsplit]; simp)
    rw [hkey] at hfiled
    exact hfiled

theorem remember (h : fleet.FiledSession session) {data : Entry}
    (hdata : fleet.FiledUnder key data) (bytes : List UInt8) :
    fleet.FiledSession (session.remember key bytes data) where
  memory entry hmem := by
      rcases mem_call hmem with hold | ⟨bytes, hcall⟩
      · exact h.memory entry hold
      · cases hcall
        exact hdata
  puts := h.puts

theorem append (h : fleet.FiledSession session) {puts : List (String × List UInt8)}
    (hputs : ∀ object ∈ puts, fleet.FiledObject object) :
    fleet.FiledSession { session with puts := session.puts ++ puts } where
  memory := h.memory
  puts object hmem := (List.mem_append.mp hmem).elim (h.puts object) (hputs object)

theorem afterCheck (h : fleet.FiledSession session) (env : Env) (data : Entry)
    (known : Option String) : fleet.FiledSession (afterCheck env data (known, session)).2 := by
  obtain ⟨hmemory, hputs⟩ := afterCheck_memory env data (known, session)
  refine ⟨?_, ?_⟩
  · rw [hmemory]
    exact h.memory
  · rw [hputs]
    exact h.puts

theorem arrived (h : fleet.FiledSession session) (derived : Bool) :
    fleet.FiledSession (arrived derived session) := by
  cases derived with
  | true => exact h
  | false => exact ⟨h.memory, h.puts⟩

end Deployment.FiledSession

/-! ## A retrieval minds the keys -/

section Retrieval

/-- A program that leaves only filed entries, and ends as a retrieval for the request may. -/
abbrev Careful (fleet : Deployment) (request : Request) : Prog Outcome → Prop :=
  Prog.Minds fleet.FiledFile (fleet.Ended request)

variable {request : Request}

theorem careful_error {session : Session} (hsession : fleet.FiledSession session)
    (failure : Failure) : Careful fleet request (.done (.error failure, session)) :=
  .done ⟨hsession, fun _ hreturned => by cases hreturned⟩

theorem careful_answer {session : Session} (hsession : fleet.FiledSession session)
    {retrieved : Retrieved} (hanswered : fleet.Answered request retrieved) :
    Careful fleet request (.done (.ok retrieved, session)) := by
  refine .done ⟨hsession, ?_⟩
  rintro other hother
  cases hother
  exact hanswered

/-- The check leaves the tiers alone, and its answer is whether the entry may be served. -/
theorem careful_check {data : Entry} {known : Option String} {session : Session}
    (hsession : fleet.FiledSession session)
    (hstate : Degradation.Consistent request.env known session)
    {next : Bool → Option String → Session → Prog Outcome}
    (hnext : ∀ known session, fleet.FiledSession session →
      Degradation.Consistent request.env known session →
      Careful fleet request (next (servable request.env data) known session)) :
    Careful fleet request (cacheEntryIsServable request.env data known session next) := by
  by_cases hpasses : CheckPasses request.env data
  · rw [cacheEntryIsServable_eq hstate hpasses]
    exact hnext _ _ (hsession.afterCheck request.env data known)
      (consistent_afterCheck hstate hpasses)
  · obtain ⟨failure, herror⟩ := cacheEntryIsServable_error hstate hpasses
    rw [herror next]
    exact careful_error hsession failure

variable (hkey : request.Keyed key)
include hkey

theorem answered_hit {data : Entry} (hfiled : fleet.FiledUnder key data)
    (hservable : servable request.env data = true) : fleet.Answered request ⟨data, true⟩ where
  filed := ⟨key, hkey, hfiled⟩
  servable _ := hservable

theorem careful_lookupMemory {session : Session} (hsession : fleet.FiledSession session)
    {miss : Option String → Session → Prog Outcome}
    (hmiss : ∀ known session, fleet.FiledSession session →
      Degradation.Consistent request.env known session →
      Careful fleet request (miss known session)) :
    Careful fleet request (lookupMemory request.env key session miss) := by
  have hafter := hsession.lookUp key
  rw [lookupMemory, ← Prod.mk.eta (p := session.lookUp key)]
  cases hfound : (session.lookUp key).1 with
  | none => exact hmiss none _ hafter (Or.inl rfl)
  | some data =>
      have hfiled := hsession.found hfound
      apply careful_check hafter (Or.inl rfl)
      intro known session hsession hstate
      cases hservable : servable request.env data with
      | true => exact .touch (careful_answer hsession (answered_hit hkey hfiled hservable))
      | false => exact hmiss known session hsession hstate

theorem careful_lookupLocal (hformats : request.env.formats = fleet.formats)
    {known : Option String} {session : Session} (hsession : fleet.FiledSession session)
    (hstate : Degradation.Consistent request.env known session)
    {miss : Option String → Session → Prog Outcome}
    (hmiss : ∀ known session, fleet.FiledSession session →
      Degradation.Consistent request.env known session →
      Careful fleet request (miss known session)) :
    Careful fleet request (lookupLocal request.env key known session miss) := by
  refine .isFile fun found => ?_
  cases found with
  | false => exact hmiss known session hsession hstate
  | true =>
      refine .read fun content hcontent => ?_
      cases content with
      | none => exact careful_error hsession _
      | some bytes =>
          have hbytes := filedFile_entryPath.mp (hcontent bytes rfl)
          dsimp only
          rw [hformats]
          cases hdata : HashFileData.fromSlice fleet.formats.parse bytes with
          | error failure => exact careful_error hsession failure
          | ok data =>
              have hfiled := hbytes data hdata
              apply careful_check hsession hstate
              intro known session hsession hstate
              cases hservable : servable request.env data with
              | true =>
                  exact .touch (careful_answer (hsession.remember hfiled bytes)
                    (answered_hit hkey hfiled hservable))
              | false => exact hmiss known session hsession hstate

theorem careful_lookupRemote (hformats : request.env.formats = fleet.formats)
    (hremote : ∀ remote, request.env.remote = some remote → ∀ name bytes,
      remote.fetch name = .found bytes → fleet.FiledObject (name, bytes))
    {known : Option String} {session : Session} (hsession : fleet.FiledSession session)
    (hstate : Degradation.Consistent request.env known session)
    {miss : Option String → Session → Prog Outcome}
    (hmiss : ∀ known session, fleet.FiledSession session →
      Degradation.Consistent request.env known session →
      Careful fleet request (miss known session)) :
    Careful fleet request (lookupRemote request.env key known session miss) := by
  rw [lookupRemote, hformats]
  cases hbytes : request.env.remote.bind fun remote => remote.get fleet.formats key with
  | none => exact hmiss known session hsession hstate
  | some bytes =>
      obtain ⟨remote, hsome, hget⟩ := Option.bind_eq_some_iff.mp hbytes
      have hfiledBytes := filedBytes_get (hremote remote hsome) hget
      dsimp only
      cases hdata : HashFileData.fromSlice fleet.formats.parse bytes with
      | error failure => exact careful_error hsession failure
      | ok data =>
          have hfiled := hfiledBytes data hdata
          apply careful_check hsession hstate
          intro known session hsession hstate
          cases hservable : servable request.env data with
          | false => exact hmiss known session hsession hstate
          | true =>
              refine .write (filedFile_entryPath.mpr hfiledBytes) fun written => ?_
              cases written with
              | false => exact careful_error hsession _
              | true =>
                  exact careful_answer (hsession.remember hfiled bytes)
                    (answered_hit hkey hfiled hservable)

theorem careful_storeEntry (hformats : request.env.formats = fleet.formats) {data : Entry}
    {known : Option String} {session : Session} (hsession : fleet.FiledSession session)
    (hfiled : Filed fleet.asked request (fingerprinted request.env data known session)) :
    Careful fleet request (storeEntry request.env key data known session) := by
  rw [storeEntry]
  cases request.env.answers.checkCancelled with
  | error failure => exact careful_error hsession failure
  | ok _ =>
      dsimp only
      have hunder : fleet.FiledUnder key (fingerprinted request.env data known session) :=
        ⟨request, hkey, hfiled⟩
      -- What is stored reads back as an entry filed for the same request.
      have hbytes : fleet.FiledBytes key
          (storedBytes request.env (fingerprinted request.env data known session)) := by
        intro read hread
        rw [← hformats] at hread
        exact ⟨request, hkey, hfiled.reread hread⟩
      refine .write (filedFile_temporaryPath.mpr hbytes) fun written => ?_
      cases written with
      | false => exact careful_error hsession _
      | true =>
          refine .rename (fun bytes hmoved =>
            filedFile_entryPath.mpr (filedFile_temporaryPath.mp hmoved)) fun renamed => ?_
          cases renamed with
          | false => exact careful_error hsession _
          | true =>
              have hputs : ∀ object ∈ (if request.env.remote.isSome then
                  RemoteCache.put request.env.formats key
                    (storedBytes request.env (fingerprinted request.env data known session))
                  else []), fleet.FiledObject object := by
                rw [hformats]
                split
                · exact filedObject_put hbytes
                · intro object hmem
                  cases hmem
              exact careful_answer ((hsession.append hputs).remember hunder _)
                ⟨⟨key, hkey, hunder⟩, fun hhit => by cases hhit⟩

theorem careful_generateEntry (hasked : fleet.asked request)
    (hformats : request.env.formats = fleet.formats) {origin : Request}
    (hbase : ∀ base, request.base = some base → Filed fleet.asked origin base)
    {tree : Option TreeIndex}
    (hmade : madeData request.env request.modified request.base = fullData request.env tree)
    {known : Option String} {session : Session} (hsession : fleet.FiledSession session)
    (hstate : Degradation.Consistent request.env known session) :
    Careful fleet request (generateEntry request.env key tree known session) := by
  rcases generateEntry_cases request.env key tree known session with
    ⟨failure, -, hfailed, -⟩ | ⟨data, hfull, hrun⟩
  · rcases generateEntry_error hfailed with hrun | hrun
    · rw [hrun]
      exact careful_error hsession failure
    · rw [hrun]
      exact careful_error (hsession.arrived false) failure
  · rw [hrun]
    exact careful_storeEntry hkey hformats (hsession.arrived false)
      (.made hasked hbase (hmade.trans hfull) hstate)

theorem careful_generateMissing (hasked : fleet.asked request)
    (hformats : request.env.formats = fleet.formats) {origin : Request}
    (hbase : ∀ base, request.base = some base → Filed fleet.asked origin base)
    {known : Option String} {session : Session} (hsession : fleet.FiledSession session)
    (hstate : Degradation.Consistent request.env known session) :
    Careful fleet request
      (generateMissing request.env request.modified request.base key known session) := by
  have hmade : madeData request.env request.modified request.base =
      madeData request.env request.modified request.base := rfl
  conv at hmade => rhs; rw [madeData]
  rw [generateMissing]
  split at hmade
  case isFalse h =>
      rw [if_neg h]
      exact careful_generateEntry hkey hasked hformats hbase hmade hsession hstate
  case isTrue h =>
      rw [if_pos h]
      cases htree : request.env.answers.gitTreeIndex with
      | error failure => exact careful_error hsession failure
      | ok tree =>
          rw [htree] at hmade
          dsimp only at hmade ⊢
          cases hderived : derivedEntry request.env request.base tree with
          | none =>
              rw [hderived] at hmade
              exact careful_generateEntry hkey hasked hformats hbase hmade hsession hstate
          | some data =>
              rw [hderived] at hmade
              exact careful_storeEntry hkey hformats hsession
                (.made hasked hbase hmade hstate)

/-- A retrieval leaves only filed entries, if the shared tier gave it only such. -/
theorem careful_lookup (hasked : fleet.asked request) {origin : Request}
    (hbase : ∀ base, request.base = some base → Filed fleet.asked origin base)
    (hremote : ∀ remote, request.env.remote = some remote → ∀ name bytes,
      remote.fetch name = .found bytes → fleet.FiledObject (name, bytes))
    {session : Session} (hsession : fleet.FiledSession session) :
    Careful fleet request (lookup request.env request.modified request.base key session) := by
  have hformats := fleet.sameFormats request hasked
  apply careful_lookupMemory hkey hsession
  intro known session hsession hstate
  apply careful_lookupLocal hkey hformats hsession hstate
  intro known session hsession hstate
  apply careful_lookupRemote hkey hformats hremote hsession hstate
  intro known session hsession hstate
  exact careful_generateMissing hkey hasked hformats hbase hsession hstate

end Retrieval

theorem careful_getHashesLocked {request : Request} (hasked : fleet.asked request) {origin : Request}
    (hbase : ∀ base, request.base = some base → Filed fleet.asked origin base)
    (hremote : ∀ remote, request.env.remote = some remote → ∀ name bytes,
      remote.fetch name = .found bytes → fleet.FiledObject (name, bytes))
    {session : Session} (hsession : fleet.FiledSession session) :
    Careful fleet request (getHashesLocked request.env request.modified request.base session) := by
  rw [getHashesLocked]
  cases htree : request.env.answers.resolveTree with
  | error failure => exact careful_error hsession failure
  | ok tree => exact careful_lookup ⟨tree, htree, rfl⟩ hasked hbase hremote hsession

/-! ## The fleet -/

namespace Deployment

variable (fleet)

/-- What holds of a server: its files and its memory hold filed entries, and so will those that
its retrieval leaves, if the shared tier gave it only such. -/
structure CoherentServer (server : ServerState) : Prop where
  idle : server.retrieval = none →
    server.files.Holds fleet.FiledFile ∧ fleet.FiledMemory server.memory
  busy : ∀ request program, server.retrieval = some (request, program) →
    fleet.asked request ∧
      ((∀ remote, request.env.remote = some remote → ∀ name bytes,
        remote.fetch name = .found bytes → fleet.FiledObject (name, bytes)) →
      server.files.Holds fleet.FiledFile ∧ Careful fleet request program)

structure Coherent (s : State) : Prop where
  servers : ∀ i, fleet.CoherentServer (s.servers i)
  objects : ∀ object ∈ s.objects, fleet.FiledObject object
  answers : ∀ answer ∈ s.answers, fleet.asked answer.1 ∧ fleet.Answered answer.1 answer.2

end Deployment

/-- A retrieval that was told the truth got filed entries. -/
theorem Honest.filed {objects : List (String × List UInt8)} {request : Request}
    (h : Honest objects request) (hobjects : ∀ object ∈ objects, fleet.FiledObject object) :
    ∀ remote, request.env.remote = some remote → ∀ name bytes,
      remote.fetch name = .found bytes → fleet.FiledObject (name, bytes) :=
  fun remote hremote name bytes hfound => hobjects _ (h remote hremote name bytes hfound)

namespace Deployment.Coherent

variable {s t : State} {event : Event}

theorem start (h : Fresh s) : fleet.Coherent s where
  servers i :=
    { idle := fun _ => by
        constructor
        · intro path bytes hread
          rw [h.files i path] at hread
          cases hread
        · intro entry hmem
          rw [h.memory i] at hmem
          cases hmem
      busy := fun request program hruns => by
        rw [h.retrieval i] at hruns
        cases hruns }
  objects object hmem := by
      rw [h.objects] at hmem
      cases hmem
  answers answer hmem := by
      rw [h.answers] at hmem
      cases hmem

/-- Replacing a server by a coherent one. -/
theorem setServer (h : fleet.Coherent s) (i : Nat) {server : ServerState}
    (hserver : fleet.CoherentServer server) : fleet.Coherent (s.setServer i server) where
  servers j := by
      by_cases hji : j = i
      · subst hji
        rw [servers_setServer_self]
        exact hserver
      · rw [servers_setServer_of_ne s hji]
        exact h.servers j
  objects := h.objects
  answers := h.answers

/-- The files of a server that comes to rest hold filed entries. -/
theorem holds (h : fleet.Coherent s) {i : Nat}
    (hhonest : ∀ request program, (s.servers i).retrieval = some (request, program) →
      Honest s.objects request) : (s.servers i).files.Holds fleet.FiledFile := by
  cases hruns : (s.servers i).retrieval with
  | none => exact ((h.servers i).idle hruns).1
  | some running =>
      obtain ⟨request, program⟩ := running
      have hfiled := (hhonest request program hruns).filed h.objects
      exact (((h.servers i).busy request program hruns).2 hfiled).1

theorem step (h : fleet.Coherent s) (hstep : Step fleet.asked s event t) : fleet.Coherent t := by
  cases hstep with
  | @begin i request hasked hidle hbase checkedOut =>
      obtain ⟨hfiles, hmemory⟩ := (h.servers i).idle hidle
      obtain ⟨origin, horigin⟩ : ∃ origin, ∀ base, request.base = some base →
          Filed fleet.asked origin base := by
        cases hsome : request.base with
        | none => exact ⟨request, fun base hbase => by cases hbase⟩
        | some base =>
            obtain ⟨other, retrieved, hmem, rfl⟩ := hbase base hsome
            obtain ⟨key, -, origin, -, hfiled⟩ := (h.answers _ hmem).2.filed
            refine ⟨origin, fun data hdata => ?_⟩
            cases hdata
            exact hfiled
      apply h.setServer
      refine ⟨fun hnone => (by cases hnone), ?_⟩
      intro request' program hruns
      cases hruns
      refine ⟨hasked, fun hremote => ⟨hfiles, ?_⟩⟩
      apply careful_getHashesLocked hasked horigin hremote
      exact ⟨hmemory, fun object hmem => by cases hmem⟩
  | @operate i request program hruns =>
      obtain ⟨hasked, hbusy⟩ := (h.servers i).busy request program hruns
      apply h.setServer
      refine ⟨fun hnone => (by cases hnone), ?_⟩
      intro request' program' hruns'
      cases hruns'
      refine ⟨hasked, fun hremote => ?_⟩
      obtain ⟨hfiles, hcareful⟩ := hbusy hremote
      obtain ⟨hcareful', hfiles'⟩ := hcareful.step hfiles
      exact ⟨hfiles', hcareful'⟩
  | @finish i request result session hruns hhonest =>
      obtain ⟨hasked, hbusy⟩ := (h.servers i).busy _ _ hruns
      obtain ⟨hfiles, hcareful⟩ := hbusy (hhonest.filed h.objects)
      have hended : fleet.Ended request (result, session) := hcareful.result
      have hset : fleet.Coherent (s.setServer i
          { s.servers i with memory := session.memory, retrieval := none }) :=
        h.setServer i
          ⟨fun _ => ⟨hfiles, hended.session.memory⟩, fun request program hnone => by cases hnone⟩
      refine ⟨hset.servers, ?_, ?_⟩
      · intro object hmem
        exact (List.mem_append.mp hmem).elim (h.objects object) (hended.session.puts object)
      · intro answer hmem
        rcases List.mem_append.mp hmem with hold | hnew
        · exact h.answers answer hold
        · cases result with
          | error failure => cases hnew
          | ok retrieved =>
              cases List.mem_singleton.mp hnew
              exact ⟨hasked, hended.answered retrieved rfl⟩
  | @remove i path =>
      apply h.setServer
      refine ⟨fun hidle => ?_, fun request program hruns => ?_⟩
      · obtain ⟨hfiles, hmemory⟩ := (h.servers i).idle hidle
        exact ⟨hfiles.remove path, hmemory⟩
      · obtain ⟨hasked, hbusy⟩ := (h.servers i).busy request program hruns
        refine ⟨hasked, fun hremote => ?_⟩
        obtain ⟨hfiles, hcareful⟩ := hbusy hremote
        exact ⟨hfiles.remove path, hcareful⟩
  | @restart i memory hempty hhonest =>
      apply h.setServer
      refine ⟨fun _ => ⟨h.holds hhonest, ?_⟩, fun request program hnone => by cases hnone⟩
      intro entry hmem
      rw [hempty] at hmem
      cases hmem

end Deployment.Coherent

/-- Whatever the servers of a fleet do, an entry that one of them returns was made for the
revision asked for: the same tree, under the same configuration and scope. An entry out of a cache
has, when the guard is on, the fingerprint of that revision's external dependencies. -/
theorem answers_filed (fleet : Deployment) {start s : State} (hstart : Fresh start)
    (h : Reachable (Step fleet.asked) start s) {request : Request} {retrieved : Retrieved}
    (hanswer : (request, retrieved) ∈ s.answers) :
    (∃ origin, SameRevision origin request ∧ Filed fleet.asked origin retrieved.data) ∧
      (retrieved.cacheHit = true → request.env.config.dependencyFingerprint = true →
        ∃ fingerprint, retrieved.data.dependencyFingerprint = some fingerprint ∧
          request.env.answers.dependencyFingerprint true = some fingerprint) := by
  have hcoherent : fleet.Coherent s :=
    h.invariant (Deployment.Coherent.start hstart) fun s event t hs hstep => hs.step hstep
  obtain ⟨hasked, hanswered⟩ := hcoherent.answers _ hanswer
  constructor
  · obtain ⟨key, hkey, origin, horigin, hfiled⟩ := hanswered.filed
    exact ⟨origin, fleet.sameRevision hfiled.asked hasked horigin hkey, hfiled⟩
  · intro hhit hguard
    have hservable := hanswered.servable hhit
    rw [servable, hguard] at hservable
    simp only [Bool.not_true, Bool.false_or, Bool.and_eq_true, decide_eq_true_eq] at hservable
    obtain ⟨hsome, hcurrent⟩ := hservable
    obtain ⟨fingerprint, hfingerprint⟩ := Option.isSome_iff_exists.mp hsome
    refine ⟨fingerprint, hfingerprint, ?_⟩
    rw [← hfingerprint, hcurrent, currentFingerprint]

end Fleet

/-! ## Two servers -/

/-- The empty entry, compressed. -/
def gzippedEntry : List UInt8 :=
  [31, 139, 8, 0, 0, 0, 0, 0, 4, 255, 171, 174, 5, 0, 67, 191, 166, 163, 2, 0, 0, 0]

def sharedFormats : Formats :=
  { emptyEnv.formats with
    gzip := fun bytes => if bytes = [123, 125] then some gzippedEntry else none
    gunzip := fun packed => if packed = gzippedEntry then some [123, 125] else none }

/-- A request for a revision without targets, with a shared tier. -/
def sharedRequest (fetch : String → Fetched) : Request where
  env :=
    { emptyEnv with
      config :=
        { emptyEnv.config with
          fingerprint := @configurationFingerprint Sha256Bytes zeroDigest {} false false }
      formats := sharedFormats
      remote := some ⟨fetch⟩ }
  modified := .empty
  base := none

/-- The request before anything is on the shared tier. -/
def firstRequest : Request :=
  sharedRequest fun _ => .missing

/-- The request once the entry is there. -/
def secondRequest : Request :=
  sharedRequest fun name =>
    if name = "t.000000000000.json.gz" then .found gzippedEntry else .missing

def sharedAsked (request : Request) : Prop :=
  request = firstRequest ∨ request = secondRequest

theorem gunzip_gzippedEntry (bytes packed : List UInt8)
    (hgzip : sharedFormats.gzip bytes = some packed) :
    sharedFormats.gunzip packed = some bytes := by
  simp only [sharedFormats] at hgzip ⊢
  split_ifs at hgzip with hbytes
  cases hgzip
  rw [if_pos rfl, hbytes]

def sharedFleet : @Deployment zeroDigest :=
  let _ : HashFunction Sha256Bytes := zeroDigest
  { asked := sharedAsked
    formats := sharedFormats
    sameFormats := by
      rintro request (rfl | rfl)
      · rfl
      · rfl
    gunzip_gzip := gunzip_gzippedEntry
    tree := by
      rintro request (rfl | rfl) tree htree
      · cases htree
        decide
      · cases htree
        decide
    configured := by
      rintro request (rfl | rfl)
      · exact ⟨{}, rfl⟩
      · exact ⟨{}, rfl⟩ }

def idleFleet : State where
  servers _ := { files := noFiles, memory := .start 1000 (by decide), retrieval := none }
  objects := []
  answers := []

/-- One server generates the entry, another one finds it on the shared tier. -/
theorem answers_filed_elsewhere :
    (∃ origin, @SameRevision zeroDigest origin secondRequest ∧
        @Filed zeroDigest sharedAsked origin {}) ∧
      ((true = true) → secondRequest.env.config.dependencyFingerprint = true →
        ∃ fingerprint, ({} : Entry).dependencyFingerprint = some fingerprint ∧
          secondRequest.env.answers.dependencyFingerprint true = some fingerprint) := by
  let : HashFunction Sha256Bytes := zeroDigest
  have hfresh : Fresh idleFleet :=
    { files := fun _ _ => rfl
      memory := fun _ => rfl
      retrieval := fun _ => rfl
      objects := rfl
      answers := rfl }
  obtain ⟨events, hfirst⟩ : ∃ events, Run (Step sharedAsked) idleFleet events
      (idleFleet.served 0 firstRequest) :=
    serves (Or.inl rfl) rfl rfl fun remote hremote name bytes hfound => by
      cases hremote
      cases hfound
  have hsent : (idleFleet.served 0 firstRequest).objects =
      [("t.000000000000.json.gz", gzippedEntry)] := rfl
  obtain ⟨events', hsecond⟩ : ∃ events, Run (Step sharedAsked)
      (idleFleet.served 0 firstRequest) events
      ((idleFleet.served 0 firstRequest).served 1 secondRequest) := by
    refine serves (Or.inr rfl) rfl rfl fun remote hremote name bytes hfound => ?_
    cases hremote
    dsimp only at hfound
    split_ifs at hfound with hname
    cases hfound
    rw [hsent, hname]
    exact List.mem_singleton_self _
  have hreachable : Reachable (@Step zeroDigest sharedFleet.asked) idleFleet
      ((idleFleet.served 0 firstRequest).served 1 secondRequest) :=
    ⟨_, hfirst.append hsecond⟩
  refine @answers_filed zeroDigest sharedFleet idleFleet _ hfresh hreachable secondRequest
    ⟨{}, true⟩ ?_
  apply List.mem_append_right
  exact List.mem_singleton_self _

end BazelDiff.Server.Fleet
