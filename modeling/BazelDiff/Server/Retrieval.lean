/-
# Retrieving the hashes of a revision

`get_hashes_locked` looks for an entry in memory, in the local cache directory and in the shared
tier, and generates one when none of them has an entry it may serve. What Git, Bazel and the
shared store answer during a retrieval is a parameter. The files of the cache directory, named
relative to it, are used one operation at a time: the cache pruner works on the same directory
and takes no lock.
-/

import BazelDiff.Cache
import BazelDiff.HashFileJson
import BazelDiff.Lib.FileProgram
import BazelDiff.Partial.Classify
import BazelDiff.Partial.Evaluate
import BazelDiff.Server.Memory

namespace BazelDiff.Server.Retrieval

open UnixPath (PathSet)

abbrev Entry := HashFileData Sha256Bytes

/-- What a retrieval reads of the server's configuration. -/
structure ServerConfig where
  dependencyFingerprint : Bool
  partialGraph : Bool
  trackDeps : Bool
  /-- The hash options come with content hashes of their own. -/
  contentHashes : Bool
  /-- The digest of the configuration. -/
  fingerprint : String

/-- The formats an entry passes through. -/
structure Formats where
  parse : List UInt8 → Except String Json
  print : Json → List UInt8
  gzip : List UInt8 → Option (List UInt8)
  gunzip : List UInt8 → Option (List UInt8)

/-- Outcome of one object read on the shared tier. -/
inductive Fetched
  | found (bytes : List UInt8)
  | missing
  | failed
  deriving DecidableEq

/-- The shared tier: what it answers for the name of an object. -/
structure RemoteCache where
  fetch : String → Fetched

/-- What the programs a retrieval runs answer for its revision. -/
structure Answers where
  resolveTree : Result String
  checkout : Result Unit
  /-- The external dependencies' fingerprint, with the workspace at the revision or not. -/
  dependencyFingerprint : Bool → Option String
  gitTreeIndex : Result TreeIndex
  classifyRevisions : Entry → TreeIndex → Result Classification
  generateHashes : Result Entry
  checkTrackedPackages : Entry → TreeIndex → Result Unit
  checkCancelled : Result Unit

structure Env where
  config : ServerConfig
  formats : Formats
  remote : Option RemoteCache
  answers : Answers

/-- What a retrieval changes besides the cache directory. -/
structure Session where
  memory : MemoryTier Entry
  /-- The objects sent to the shared tier. -/
  puts : List (String × List UInt8)
  /-- The workspace is at the revision. -/
  checkedOut : Bool

/-- What a retrieval returns. -/
structure Retrieved where
  data : Entry
  cacheHit : Bool

abbrev Outcome := Result Retrieved × Session

/-- A failed file operation. The text of the system's error is left out. -/
def ioFailure : Failure :=
  .error "I/O error"

def entryPath (key : String) : String :=
  key ++ ".json"

def temporaryPath (key : String) : String :=
  key ++ ".tmp"

namespace RemoteCache

/-- Reads the entry for `key`: the compressed object first, then the plain one. A read failure,
or an object that does not decompress, is a miss and does not fall through. -/
def get (formats : Formats) (remote : RemoteCache) (key : String) : Option (List UInt8) :=
  match remote.fetch (key ++ ".json.gz") with
  | .found bytes => formats.gunzip bytes
  | .missing =>
      match remote.fetch (key ++ ".json") with
      | .found bytes => some bytes
      | .missing => none
      | .failed => none
  | .failed => none

/-- The object that is stored for an entry, when it can be compressed. -/
def put (formats : Formats) (key : String) (data : List UInt8) : List (String × List UInt8) :=
  match formats.gzip data with
  | some compressed => [(key ++ ".json.gz", compressed)]
  | none => []

end RemoteCache

namespace Session

/-- The entry in memory, which becomes the most recently used. -/
def lookUp (session : Session) (key : String) : Option Entry × Session :=
  ((session.memory.cache.get key).1,
    { session with memory := session.memory.call (.get key) })

def remember (session : Session) (key : String) (bytes : List UInt8) (data : Entry) : Session :=
  { session with memory := session.memory.call (.insert key bytes.length data) }

end Session

section Program

variable (env : Env)

def checkout (session : Session) (next : Session → Prog Outcome) : Prog Outcome :=
  match env.answers.checkout with
  | .ok () => next { session with checkedOut := true }
  | .error failure => .done (.error failure, session)

/-- `cache_entry_is_servable`. With the guard on, an entry must carry the fingerprint of the
workspace's external dependencies, which is computed at most once for a retrieval unless that
fails. -/
def cacheEntryIsServable (data : Entry) (known : Option String) (session : Session)
    (next : Bool → Option String → Session → Prog Outcome) : Prog Outcome :=
  if env.config.dependencyFingerprint then
    match data.dependencyFingerprint with
    | none => next false known session
    | some cached =>
        match known with
        | some current => next (current = cached) known session
        | none =>
            checkout env session fun session =>
              let current := env.answers.dependencyFingerprint session.checkedOut
              next (current = some cached) current session
  else next true known session

/-- The memory tier of `get_hashes_locked`. -/
def lookupMemory (key : String) (session : Session)
    (miss : Option String → Session → Prog Outcome) : Prog Outcome :=
  match session.lookUp key with
  | (none, session) => miss none session
  | (some data, session) =>
      cacheEntryIsServable env data none session fun servable known session =>
        if servable then .touch (entryPath key) (.done (.ok ⟨data, true⟩, session))
        else miss known session

/-- The local tier of `get_hashes_locked`. -/
def lookupLocal (key : String) (known : Option String) (session : Session)
    (miss : Option String → Session → Prog Outcome) : Prog Outcome :=
  .isFile (entryPath key) fun found =>
    if found then
      .read (entryPath key) fun content =>
        match content with
        | none => .done (bail ("failed to read hash file " ++ entryPath key), session)
        | some bytes =>
            match HashFileData.fromSlice env.formats.parse bytes with
            | .error failure => .done (.error failure, session)
            | .ok data =>
                cacheEntryIsServable env data known session fun servable known session =>
                  if servable then
                    .touch (entryPath key)
                      (.done (.ok ⟨data, true⟩, session.remember key bytes data))
                  else miss known session
    else miss known session

/-- The shared tier of `get_hashes_locked`. -/
def lookupRemote (key : String) (known : Option String) (session : Session)
    (miss : Option String → Session → Prog Outcome) : Prog Outcome :=
  match env.remote.bind fun remote => remote.get env.formats key with
  | none => miss known session
  | some bytes =>
      match HashFileData.fromSlice env.formats.parse bytes with
      | .error failure => .done (.error failure, session)
      | .ok data =>
          cacheEntryIsServable env data known session fun servable known session =>
            if servable then
              .write (entryPath key) bytes fun written =>
                if written then .done (.ok ⟨data, true⟩, session.remember key bytes data)
                else .done (.error ioFailure, session)
            else miss known session

/-- The entry with the fingerprint it is stored under. -/
def fingerprinted (data : Entry) (known : Option String) (session : Session) : Entry :=
  if env.config.dependencyFingerprint && data.dependencyFingerprint.isNone then
    { data with
      dependencyFingerprint :=
        known.or (env.answers.dependencyFingerprint session.checkedOut) }
  else data

/-- `get_hashes_locked` once it has new data: what it writes where. -/
def storeEntry (key : String) (data : Entry) (known : Option String) (session : Session) :
    Prog Outcome :=
  match env.answers.checkCancelled with
  | .error failure => .done (.error failure, session)
  | .ok () =>
      let data := fingerprinted env data known session
      let bytes := env.formats.print (data.serialized true env.config.trackDeps)
      .write (temporaryPath key) bytes fun written =>
        if written then
          .rename (temporaryPath key) (entryPath key) fun renamed =>
            if renamed then
              let puts := if env.remote.isSome then RemoteCache.put env.formats key bytes else []
              let session := { session with puts := session.puts ++ puts }
              .done (.ok ⟨data, false⟩, session.remember key bytes data)
            else .done (.error ioFailure, session)
        else .done (.error ioFailure, session)

/-- A full generation. -/
def generateEntry (key : String) (tree : Option TreeIndex) (known : Option String)
    (session : Session) : Prog Outcome :=
  checkout env session fun session =>
    match env.answers.generateHashes with
    | .error failure => .done (.error failure, session)
    | .ok data =>
        match tree.elim (.ok ()) (env.answers.checkTrackedPackages data) with
        | .error failure => .done (.error failure, session)
        | .ok () => storeEntry env key data known session

variable [HashFunction Sha256Bytes]

/-- The entry partial-graph mode derives from a base, when it can. -/
def derivedEntry (base : Option Entry) (tree : TreeIndex) : Option Entry :=
  if env.config.partialGraph then
    base.bind fun data =>
      if data.partialGraph.isSome then
        match env.answers.classifyRevisions data tree with
        | .ok (.derivable _ _) => (derive data tree).toOption
        | .ok (.rebuild _) => none
        | .error _ => none
      else none
  else none

/-- `get_hashes_locked` after a miss in every tier. -/
def generateMissing (modified : PathSet) (base : Option Entry) (key : String)
    (known : Option String) (session : Session) : Prog Outcome :=
  if modified.paths.isEmpty && !env.config.contentHashes then
    match env.answers.gitTreeIndex with
    | .error failure => .done (.error failure, session)
    | .ok tree =>
        match derivedEntry env base tree with
        | some data => storeEntry env key data known session
        | none => generateEntry env key (some tree) known session
  else generateEntry env key none known session

/-- The tiers of `get_hashes_locked` in their order. -/
def lookup (modified : PathSet) (base : Option Entry) (key : String) (session : Session) :
    Prog Outcome :=
  lookupMemory env key session fun known session =>
    lookupLocal env key known session fun known session =>
      lookupRemote env key known session fun known session =>
        generateMissing env modified base key known session

def getHashesLocked (modified : PathSet) (base : Option Entry) (session : Session) :
    Prog Outcome :=
  match env.answers.resolveTree with
  | .error failure => .done (.error failure, session)
  | .ok tree =>
      lookup env modified base (cacheKey Sha256Bytes tree env.config.fingerprint modified) session

end Program

/-! ## A server with nothing to hash -/

/-- Digests that are all alike, for runs that compare none. -/
@[reducible]
def zeroDigest : HashFunction Sha256Bytes where
  digest _ := ⟨List.replicate 32 0, rfl⟩
  bytes d := d.val
  ofBytes bytes := if h : bytes.length = 32 then some ⟨bytes, h⟩ else none
  ofBytes_bytes d := dif_pos d.property
  eq_of_append_eq {d d' _ _} h :=
    Subtype.ext (List.append_inj h (d.property.trans d'.property.symm)).1

/-- A server without a shared tier, whose every revision has no targets. -/
def emptyEnv : Env where
  config :=
    { dependencyFingerprint := false
      partialGraph := false
      trackDeps := false
      contentHashes := true
      fingerprint := "f" }
  formats :=
    { parse := fun bytes => if bytes = [123, 125] then .ok (.object []) else .error "syntax"
      print := fun _ => [123, 125]
      gzip := some
      gunzip := some }
  remote := none
  answers :=
    { resolveTree := .ok "t"
      checkout := .ok ()
      dependencyFingerprint := fun _ => none
      gitTreeIndex := .ok ⟨∅, none⟩
      classifyRevisions := fun _ _ => .ok (.derivable [] [])
      generateHashes := .ok {}
      checkTrackedPackages := fun _ _ => .ok ()
      checkCancelled := .ok () }

def emptySession : Session where
  memory := .start 0 (by decide)
  puts := []
  checkedOut := false

end BazelDiff.Server.Retrieval
