/-
# A fleet of servers with one shared tier

Servers of one deployment keep entries in memory and in a cache directory of their own, and share
a store of objects. On a server one retrieval runs at a time, an operation at a time; those of
different servers interleave, and files may be removed and servers restarted under them. What the
shared tier tells a retrieval is fixed when it begins and holds it to account when it ends: an
object it was given must have been sent by then.
-/

import BazelDiff.Lib.Transition
import BazelDiff.Server.Retrieval

namespace BazelDiff.Server.Fleet

open Retrieval
open UnixPath (PathSet)

/-- A revision that a server is asked for, with what its programs will answer. -/
structure Request where
  env : Env
  modified : PathSet
  /-- The request's other revision, when it has already been retrieved. -/
  base : Option Entry

/-- One of the servers. -/
structure ServerState where
  files : Files
  memory : MemoryTier Entry
  /-- The retrieval that runs, as far as it has come. -/
  retrieval : Option (Request × Prog Outcome)

structure State where
  servers : Nat → ServerState
  /-- The objects sent to the shared tier so far. -/
  objects : List (String × List UInt8)
  /-- What was returned so far, and for what. -/
  answers : List (Request × Retrieved)

def State.setServer (s : State) (i : Nat) (server : ServerState) : State :=
  { s with servers := Function.update s.servers i server }

@[simp]
theorem servers_setServer_self (s : State) (i : Nat) (server : ServerState) :
    (s.setServer i server).servers i = server := by
  show Function.update s.servers i server i = server
  rw [Function.update_self]

theorem servers_setServer_of_ne (s : State) {i j : Nat} (h : j ≠ i) (server : ServerState) :
    (s.setServer i server).servers j = s.servers j := by
  show Function.update s.servers i server j = s.servers j
  rw [Function.update_of_ne h]

theorem setServer_setServer (s : State) (i : Nat) (server other : ServerState) :
    (s.setServer i server).setServer i other = s.setServer i other := by
  rw [State.setServer, State.setServer, State.setServer, Function.update_idem]

theorem setServer_self (s : State) (i : Nat) : s.setServer i (s.servers i) = s := by
  rw [State.setServer, Function.update_eq_self]

/-- The objects a retrieval was given were sent before it ended. -/
def Honest (objects : List (String × List UInt8)) (request : Request) : Prop :=
  ∀ remote, request.env.remote = some remote → ∀ name bytes,
    remote.fetch name = .found bytes → (name, bytes) ∈ objects

/-- The answer of a retrieval that succeeded. -/
def returned (request : Request) : Result Retrieved → List (Request × Retrieved)
  | .ok retrieved => [(request, retrieved)]
  | .error _ => []

inductive Event
  /-- A server takes up a request. -/
  | begin (server : Nat)
  /-- A retrieval does one file operation. -/
  | operate (server : Nat)
  /-- A retrieval ends. -/
  | finish (server : Nat)
  /-- A file leaves a cache directory. -/
  | remove (server : Nat)
  /-- A server comes up anew, its memory empty. -/
  | restart (server : Nat)
  deriving DecidableEq

/-- A step of the fleet, of which some requests are asked. -/
inductive Step [HashFunction Sha256Bytes] (asked : Request → Prop) : State → Event → State → Prop
  | begin {s : State} {i : Nat} {request : Request} (hasked : asked request)
      (hidle : (s.servers i).retrieval = none)
      (hbase : ∀ base, request.base = some base →
        ∃ other retrieved, (other, retrieved) ∈ s.answers ∧ retrieved.data = base)
      (checkedOut : Bool) :
      Step asked s (.begin i)
        (s.setServer i
          { s.servers i with
            retrieval :=
              some (request, getHashesLocked request.env request.modified request.base
                { memory := (s.servers i).memory, puts := [], checkedOut }) })
  | operate {s : State} {i : Nat} {request : Request} {program : Prog Outcome}
      (hruns : (s.servers i).retrieval = some (request, program)) :
      Step asked s (.operate i)
        (s.setServer i
          { s.servers i with
            files := (program.step (s.servers i).files).2
            retrieval := some (request, (program.step (s.servers i).files).1) })
  | finish {s : State} {i : Nat} {request : Request} {result : Result Retrieved}
      {session : Session} (hruns : (s.servers i).retrieval = some (request, .done (result, session)))
      (hhonest : Honest s.objects request) :
      Step asked s (.finish i)
        { s.setServer i { s.servers i with memory := session.memory, retrieval := none } with
          objects := s.objects ++ session.puts
          answers := s.answers ++ returned request result }
  | remove {s : State} {i : Nat} (path : String) :
      Step asked s (.remove i)
        (s.setServer i { s.servers i with files := (s.servers i).files.remove path })
  | restart {s : State} {i : Nat} {memory : MemoryTier Entry}
      (hempty : memory.cache.entries = [])
      (hhonest : ∀ request program, (s.servers i).retrieval = some (request, program) →
        Honest s.objects request) :
      Step asked s (.restart i) (s.setServer i { s.servers i with memory, retrieval := none })

/-! ## A retrieval that is left alone -/

section Alone

variable [HashFunction Sha256Bytes] {asked : Request → Prop} {s : State} {i : Nat}
  {request : Request}

/-- The server once a program has come to its end. -/
def ServerState.ran (server : ServerState) (request : Request) (program : Prog Outcome) :
    ServerState :=
  { server with
    files := (program.run server.files).2
    retrieval := some (request, .done (program.run server.files).1) }

/-- The server after one operation. -/
def ServerState.operated (server : ServerState) (request : Request) (program : Prog Outcome) :
    ServerState :=
  { server with
    files := (program.step server.files).2
    retrieval := some (request, (program.step server.files).1) }

theorem operates_of_step {program : Prog Outcome}
    (hruns : (s.servers i).retrieval = some (request, program))
    (hrest : ∀ t : State, (t.servers i).retrieval =
        some (request, (program.step (s.servers i).files).1) →
      ∃ events, Run (Step asked) t events (t.setServer i
        ((t.servers i).ran request (program.step (s.servers i).files).1))) :
    ∃ events, Run (Step asked) s events (s.setServer i ((s.servers i).ran request program)) := by
  have hself := servers_setServer_self s i ((s.servers i).operated request program)
  obtain ⟨events, hrun⟩ := hrest _ (congrArg ServerState.retrieval hself)
  refine ⟨.operate i :: events, .cons (.operate hruns) ?_⟩
  rw [hself, setServer_setServer, ServerState.operated, ServerState.ran, Prog.run_step] at hrun
  exact hrun

/-- Operation by operation, a retrieval comes to what it comes to on its own. -/
theorem operates {program : Prog Outcome}
    (hruns : (s.servers i).retrieval = some (request, program)) :
    ∃ events, Run (Step asked) s events
      (s.setServer i ((s.servers i).ran request program)) := by
  induction program generalizing s with
  | done result =>
      refine ⟨[], ?_⟩
      have hsame : (s.servers i).ran request (.done result) = s.servers i := by
        rw [ServerState.ran, Prog.run, ← hruns]
      rw [hsame, setServer_self]
      exact .nil s
  | isFile path next ih => exact operates_of_step hruns fun t ht => ih _ ht
  | read path next ih => exact operates_of_step hruns fun t ht => ih _ ht
  | touch path next ih => exact operates_of_step hruns fun t ht => ih ht
  | write path bytes next ih =>
      apply operates_of_step hruns
      intro t ht
      rw [Prog.step] at ht ⊢
      cases hwritten : (s.servers i).files.write path bytes with
      | none =>
          rw [hwritten] at ht
          exact ih false ht
      | some written =>
          rw [hwritten] at ht
          exact ih true ht
  | rename source target next ih =>
      apply operates_of_step hruns
      intro t ht
      rw [Prog.step] at ht ⊢
      cases hrenamed : (s.servers i).files.rename source target with
      | none =>
          rw [hrenamed] at ht
          exact ih false ht
      | some renamed =>
          rw [hrenamed] at ht
          exact ih true ht

/-- What a request comes to on a server that is left alone. -/
def ServerState.outcome (server : ServerState) (request : Request) : Outcome × Files :=
  (getHashesLocked request.env request.modified request.base
    { memory := server.memory, puts := [], checkedOut := false }).run server.files

/-- The fleet once a server was left alone with a request. -/
def State.served (s : State) (i : Nat) (request : Request) : State :=
  let outcome := (s.servers i).outcome request
  { s.setServer i { files := outcome.2, memory := outcome.1.2.memory, retrieval := none } with
    objects := s.objects ++ outcome.1.2.puts
    answers := s.answers ++ returned request outcome.1.1 }

/-- A server that is left alone with a request that needs no base deals with it. -/
theorem serves (hasked : asked request) (hidle : (s.servers i).retrieval = none)
    (hbase : request.base = none) (hhonest : Honest s.objects request) :
    ∃ events, Run (Step asked) s events (s.served i request) := by
  have hbegin := Step.begin hasked hidle
    (fun base hsome => by rw [hbase] at hsome; cases hsome) false
  set program := getHashesLocked request.env request.modified request.base
    { memory := (s.servers i).memory, puts := [], checkedOut := false } with hprogram
  set taken : ServerState := { s.servers i with retrieval := some (request, program) } with htaken
  have hself := servers_setServer_self s i taken
  obtain ⟨events, hrun⟩ : ∃ events, Run (Step asked) _ events _ :=
    operates (congrArg ServerState.retrieval hself)
  rw [hself, setServer_setServer] at hrun
  have hdone := congrArg ServerState.retrieval
    (servers_setServer_self s i (taken.ran request program))
  have hfinish : Step asked _ _ _ := .finish hdone hhonest
  rw [servers_setServer_self, setServer_setServer] at hfinish
  exact ⟨_, .cons hbegin (hrun.append (.cons hfinish (.nil _)))⟩

end Alone

/-- No server holds an entry yet, nothing runs and nothing was sent. -/
structure Fresh (s : State) : Prop where
  files : ∀ i path, (s.servers i).files.read path = none
  memory : ∀ i, (s.servers i).memory.cache.entries = []
  retrieval : ∀ i, (s.servers i).retrieval = none
  objects : s.objects = []
  answers : s.answers = []

/-! ## The keys of a deployment -/

section Keys

variable [HashFunction Sha256Bytes]

/-- The request's revision is filed under the key. -/
def Request.Keyed (request : Request) (key : String) : Prop :=
  ∃ tree, request.env.answers.resolveTree = .ok tree ∧
    key = cacheKey Sha256Bytes tree request.env.config.fingerprint request.modified

/-- The digest of the paths a request is restricted to. -/
def Request.scope (request : Request) : Option String :=
  if request.modified.paths.isEmpty then none
  else some (shortHex Sha256Bytes (scopeInput request.modified))

/-- Two requests for one tree, under one configuration and one scope, as far as digests tell. -/
structure SameRevision (a b : Request) : Prop where
  tree : a.env.answers.resolveTree = b.env.answers.resolveTree
  fingerprint : a.env.config.fingerprint = b.env.config.fingerprint
  scope : a.scope = b.scope

/-- What the servers have in common, and what they may be asked. -/
structure Deployment where
  asked : Request → Prop
  formats : Formats
  sameFormats : ∀ request, asked request → request.env.formats = formats
  /-- What was compressed comes out again. -/
  gunzip_gzip : ∀ bytes packed, formats.gzip bytes = some packed →
    formats.gunzip packed = some bytes
  /-- Git names a tree in hexadecimal digits. -/
  tree : ∀ request, asked request → ∀ tree, request.env.answers.resolveTree = .ok tree →
    '.' ∉ tree.toList
  configured : ∀ request, asked request → ∃ options, request.env.config.fingerprint =
    configurationFingerprint Sha256Bytes options request.env.config.trackDeps
      request.env.config.partialGraph

theorem notMem_shortHex (input : List UInt8) : '.' ∉ (shortHex Sha256Bytes input).toList := by
  rw [shortHex, String.toList_ofList]
  intro hmem
  exact not_mem_encode (by decide) _ (List.mem_of_mem_take hmem)

theorem cacheKey_eq_join (tree : String) (request : Request) :
    cacheKey Sha256Bytes tree request.env.config.fingerprint request.modified =
      Text.join "." (tree :: request.env.config.fingerprint :: request.scope.toList) := by
  rw [cacheKey, Request.scope, Text.join]
  split
  · simp [String.append_assoc]
  · simp [String.append_assoc]

/-- A key tells the revision: the tree, the configuration and the scope can be read off it. -/
theorem Deployment.sameRevision (fleet : Deployment) {a b : Request} {key : String}
    (ha : fleet.asked a) (hb : fleet.asked b) (hakey : a.Keyed key) (hbkey : b.Keyed key) :
    SameRevision a b := by
  obtain ⟨atree, hatree, hakey⟩ := hakey
  obtain ⟨btree, hbtree, hbkey⟩ := hbkey
  have hpieces : ∀ request, fleet.asked request → ∀ tree,
      request.env.answers.resolveTree = .ok tree →
      Text.split '.' (Text.join "." (tree :: request.env.config.fingerprint ::
        request.scope.toList)) = tree :: request.env.config.fingerprint ::
        request.scope.toList := by
    intro request hasked tree htree
    apply Text.split_join_pieces (List.cons_ne_nil _ _)
    intro piece hpiece
    rcases List.mem_cons.mp hpiece with rfl | hpiece
    · exact fleet.tree request hasked _ htree
    · rcases List.mem_cons.mp hpiece with rfl | hpiece
      · obtain ⟨options, hoptions⟩ := fleet.configured request hasked
        rw [hoptions]
        exact notMem_shortHex _
      · rw [Request.scope] at hpiece
        split at hpiece
        · cases hpiece
        · rw [Option.toList_some, List.mem_singleton] at hpiece
          rw [hpiece]
          exact notMem_shortHex _
  have hsame := (hpieces a ha atree hatree).symm.trans
    ((congrArg (Text.split '.') ((cacheKey_eq_join atree a).symm.trans
      ((hakey.symm.trans hbkey).trans (cacheKey_eq_join btree b)))).trans
      (hpieces b hb btree hbtree))
  obtain ⟨rfl, hrest⟩ := List.cons_eq_cons.mp hsame
  obtain ⟨hfingerprint, hscope⟩ := List.cons_eq_cons.mp hrest
  refine ⟨hatree.trans hbtree.symm, hfingerprint, ?_⟩
  cases ha : a.scope with
  | none =>
      cases hb : b.scope with
      | none => rfl
      | some scope =>
          rw [ha, hb] at hscope
          cases hscope
  | some scope =>
      cases hb : b.scope with
      | none =>
          rw [ha, hb] at hscope
          cases hscope
      | some other =>
          rw [ha, hb] at hscope
          cases hscope
          rfl

end Keys

end BazelDiff.Server.Fleet
