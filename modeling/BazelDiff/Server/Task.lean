/-
# What a query worker does while it holds the workspace

`compute_query` and `warm_revision` are long straight-line programs of `git` and
`bazel` subprocesses, cache lookups and cache writes. Which of them happen depends on
the request, on the server's configuration and on data this model does not carry:
whether an entry is cached, whether a revision is in the clone, what a subprocess
printed. A `Task` is such a program with exactly those outside answers left open.

No subprocess is handed the query's token. `State::git` and `State::bazel_options` ask
the workspace who holds it at the moment they are called and keep the answer, so a task
says where it asks (`bind`) and which tool's kept answer a subprocess then runs under.
A task is scoped when every subprocess comes after a question of its own tool. Scoping
is checked per function of the server, once for every continuation.
-/

import Mathlib.Data.Set.Basic
import Mathlib.Data.Set.Insert

namespace BazelDiff.Server

/-- The two programs a query shells out to. Each has options of its own, and with them
its own captured cancellation token. -/
inductive Tool
  | git
  | bazel
  deriving DecidableEq, Repr

/-- A subprocess of a query: `git checkout --force`, another `git` command, or `bazel`. -/
inductive Process
  | git
  | checkout
  | bazel
  deriving DecidableEq, Repr

/-- Whose options a subprocess is built from. -/
def Process.tool : Process → Tool
  | .git => .git
  | .checkout => .git
  | .bazel => .bazel

/-- A change a query makes without a subprocess: the stale `index.lock` a checkout
clears, and the writes to the three cache tiers. -/
inductive Mutation
  | indexLock
  | memoryUse
  | memoryInsert
  | localTouch
  | localTemporary
  | localEntry
  | localPrune
  | remotePut
  deriving DecidableEq, Repr

/-- The program of a query from `acquire` to its return. `finish` carries whether the
result is `Ok`. A `processes` node is a call that runs any number of Bazel subprocesses,
several at once from the hash pool; a `choose` node is decided by data outside the
model. -/
inductive Task
  | finish (ok : Bool)
  | choose (next : Nat → Task)
  | bind (tool : Tool) (next : Task)
  | process (process : Process) (ok err : Task)
  | processes (ok err : Task)
  | mutate (mutation : Mutation) (ok err : Task)
  | check (ok err : Task)

namespace Task

/-- A two-way choice. -/
def either (a b : Task) : Task :=
  .choose fun n => if n = 0 then a else b

/-- A mutation whose failure is ignored or that cannot fail. -/
def mutating (mutation : Mutation) (next : Task) : Task :=
  .mutate mutation next next

/-! ## The server's helpers -/

/-- One subprocess of a fresh `state.git()`: `resolve_sha`, `resolve_tree`, `git`. -/
def git (ok err : Task) : Task :=
  .bind .git (.process .git ok err)

/-- `Git::checkout` on a fresh `state.git()`: nothing to do when `HEAD` is there already,
else a forced checkout, with one retry after clearing a stale `index.lock`. -/
def checkout (ok err : Task) : Task :=
  let retry := .mutate .indexLock (.process .checkout ok err) err
  let force := .process .checkout ok (either err retry)
  .bind .git (.process .git (either ok force) force)

/-- `any` over the remotes `git remote` listed: the first fetch that works ends it. -/
def fetchRemotes (next : Task) : Nat → Task
  | 0 => next
  | n + 1 => git next (fetchRemotes next n)

/-- `fetch_revision`, whose result `resolve_both` does not look at. -/
def fetchRevision (next : Task) : Task :=
  git (.choose (fetchRemotes next)) next

/-- One round of `resolve_both`'s loop over the requested revisions. -/
def fetchMissing (next : Task) : Task :=
  git next (fetchRevision next)

/-- `resolve_both`: both revisions as they are, else after a fetch of everything and of
each revision still missing. Equal revisions are looked at once. -/
def resolveBoth (same : Bool) (ok err : Task) : Task :=
  let final := git (git ok err) err
  let missing := if same then fetchMissing final else fetchMissing (fetchMissing final)
  let fetch := git missing err
  git (git ok fetch) (git fetch fetch)

/-- `prune_cache` removing the given number of entries. -/
def removeEntries (next : Task) : Nat → Task
  | 0 => next
  | n + 1 => mutating .localPrune (removeEntries next n)

def pruneCache (next : Task) : Task :=
  .choose (removeEntries next)

/-- `dependency_fingerprint_for_workspace`. -/
def dependencyFingerprintForWorkspace (ok err : Task) : Task :=
  .bind .bazel (.processes ok err)

end Task

/-- The configuration the control flow of a query reads. -/
structure Config where
  /-- `--dependencyFingerprint`. -/
  dependencyFingerprint : Bool
  /-- `--partialGraph`. -/
  partialGraph : Bool
  /-- A remote cache is configured. -/
  remote : Bool
  /-- The hash options come with content hashes. -/
  contentHashes : Bool
  deriving DecidableEq, Repr

/-- The kinds of query the server answers. -/
inductive QueryKind
  | impactedTargets
  | distances
  | depEdges
  deriving DecidableEq, Repr

/-- The parts of a request the control flow reads. -/
structure QueryInputs where
  /-- Both requested revisions are the same string. -/
  sameRevision : Bool
  /-- No `modifiedFilepaths` were given. -/
  modifiedEmpty : Bool
  kind : QueryKind
  deriving DecidableEq, Repr

namespace Task

variable (config : Config)

/-- `cache_entry_is_servable`. The argument of the continuations, and `known`, say whether
the workspace's dependency fingerprint has been computed for this lookup. -/
def cacheEntryIsServable (known : Bool) (yes no : Bool → Task) (err : Task) : Task :=
  if config.dependencyFingerprint then
    let compare := fun known => either (yes known) (no known)
    let fingerprinted :=
      if known then compare true
      else checkout (dependencyFingerprintForWorkspace (compare true) (no false)) err
    either (no known) fingerprinted
  else yes known

/-- The end of `get_hashes_locked`: serialise the entry and write it to every tier. -/
def storeEntry (ok err : Task) : Task :=
  let remembered := mutating .memoryInsert ok
  let stored := if config.remote then mutating .remotePut remembered else remembered
  either err (.mutate .localTemporary (.mutate .localEntry stored err) err)

/-- From the cancellation check of `get_hashes_locked` on: the entry's fingerprint, unless
a derived entry brought it along or a lookup computed it, then the writes. -/
def finishEntry (known : Bool) (ok err : Task) : Task :=
  let store := storeEntry config ok err
  let fingerprint := if known then store else dependencyFingerprintForWorkspace store store
  .check (if config.dependencyFingerprint then either store fingerprint else store) err

/-- A full generation: checkout, `generate_hashes_timed` under the options bound before,
and the tracked-package check when there is a tree to check against. -/
def generateEntry (tree known : Bool) (ok err : Task) : Task :=
  let finished := finishEntry config known ok err
  checkout (.processes (if tree then either finished err else finished) err) err

/-- The `git show` calls of `classify_revisions`, through one `Git` value. -/
def showFiles (next err : Task) : Nat → Task
  | 0 => next
  | n + 1 => .process .git (showFiles next err n) err

/-- `git::classify_revisions` on a fresh `state.git()`. -/
def classifyRevisions (ok err : Task) : Task :=
  .bind .git (.process .git (.choose (showFiles ok err)) err)

/-- A cache miss in `get_hashes_locked`. The options are bound first; with a tree listing,
partial-graph mode may derive the entry from a base with recipes, and every way that can
fail falls back to a full generation. -/
def generateMissing (modifiedEmpty base known : Bool) (ok err : Task) : Task :=
  let rebuild := fun tree => generateEntry config tree known ok err
  let derive := either (finishEntry config known ok err) (rebuild true)
  let classified :=
    if config.partialGraph && base then classifyRevisions derive (rebuild true)
    else rebuild true
  let listed := .bind .git (.process .git (.process .git classified err) err)
  .bind .bazel (if modifiedEmpty && !config.contentHashes then listed else rebuild false)

/-- The remote tier of `get_hashes_locked`. -/
def remoteLookup (known : Bool) (ok err : Task) (miss : Bool → Task) : Task :=
  let served := .mutate .localEntry (mutating .memoryInsert ok) err
  let found := either err (cacheEntryIsServable config known (fun _ => served) miss err)
  if config.remote then either (miss known) found else miss known

/-- The local tier of `get_hashes_locked`. -/
def localLookup (known : Bool) (ok err : Task) (miss : Bool → Task) : Task :=
  let served := mutating .localTouch (mutating .memoryInsert ok)
  let found := either err (cacheEntryIsServable config known (fun _ => served) miss err)
  either (miss known) found

/-- `get_hashes_locked`: the memory, local and remote tiers in order, then a generation.
`base` says whether the caller passed a base entry that carries recipes. -/
def getHashesLocked (modifiedEmpty base : Bool) (ok err : Task) : Task :=
  let missing := fun known => generateMissing config modifiedEmpty base known ok err
  let remote := fun known => remoteLookup config known ok err missing
  let disk := fun known => localLookup config known ok err remote
  let hit := cacheEntryIsServable config false (fun _ => mutating .localTouch ok) disk err
  git (either (disk false) (mutating .memoryUse hit)) err

/-- `compute_query` after its `acquire`. -/
def computeQuery (inputs : QueryInputs) : Task :=
  let failed := .finish false
  let pruned := pruneCache (either (.finish true) failed)
  let compared := .bind .bazel (.processes (either failed pruned) failed)
  let compare := checkout compared failed
  let second := fun base => getHashesLocked config inputs.modifiedEmpty base compare failed
  let bases := either (second true) (second false)
  let both := getHashesLocked config inputs.modifiedEmpty false bases failed
  let edges := getHashesLocked config true false pruned failed
  resolveBoth inputs.sameRevision
    (match inputs.kind with
      | .depEdges => edges
      | .impactedTargets => both
      | .distances => both)
    failed

/-- `warm_revision` after its `acquire`. -/
def warmRevision : Task :=
  git (getHashesLocked config true false (.finish true) (.finish false)) (.finish false)

end Task

/-! ## Scoping -/

namespace Task

/-- Every subprocess runs under an answer its tool has asked for, given the tools that
have one already. -/
def Scoped : Task → Set Tool → Prop
  | .finish _, _ => True
  | .choose next, scope => ∀ n, (next n).Scoped scope
  | .bind tool next, scope => next.Scoped (insert tool scope)
  | .process p ok err, scope =>
      p.tool ∈ scope ∧ ok.Scoped scope ∧ err.Scoped scope
  | .processes ok err, scope => Tool.bazel ∈ scope ∧ ok.Scoped scope ∧ err.Scoped scope
  | .mutate _ ok err, scope => ok.Scoped scope ∧ err.Scoped scope
  | .check ok err, scope => ok.Scoped scope ∧ err.Scoped scope

/-- An answer once kept is never lost. -/
theorem Scoped.mono {task : Task} {scope scope' : Set Tool} (h : task.Scoped scope)
    (hsub : scope ⊆ scope') : task.Scoped scope' := by
  induction task generalizing scope scope' with
  | finish ok => trivial
  | choose next ih => exact fun n => ih n (h n) hsub
  | bind tool next ih => exact ih h (Set.insert_subset_insert hsub)
  | process p ok err ihok iherr =>
      exact ⟨hsub h.1, ihok h.2.1 hsub, iherr h.2.2 hsub⟩
  | processes ok err ihok iherr => exact ⟨hsub h.1, ihok h.2.1 hsub, iherr h.2.2 hsub⟩
  | mutate mutation ok err ihok iherr => exact ⟨ihok h.1 hsub, iherr h.2 hsub⟩
  | check ok err ihok iherr => exact ⟨ihok h.1 hsub, iherr h.2 hsub⟩

theorem Scoped.insert {task : Task} {scope : Set Tool} (h : task.Scoped scope) (tool : Tool) :
    task.Scoped (insert tool scope) :=
  h.mono (Set.subset_insert tool scope)

variable {config : Config} {scope : Set Tool} {ok err next a b : Task}

theorem scoped_either (ha : a.Scoped scope) (hb : b.Scoped scope) :
    (either a b).Scoped scope := by
  intro n
  dsimp only
  split
  · exact ha
  · exact hb

theorem scoped_mutating (mutation : Mutation) (h : next.Scoped scope) :
    (mutating mutation next).Scoped scope :=
  ⟨h, h⟩

theorem scoped_git (hok : ok.Scoped scope) (herr : err.Scoped scope) :
    (git ok err).Scoped scope :=
  ⟨Set.mem_insert _ _, hok.insert _, herr.insert _⟩

theorem scoped_checkout (hok : ok.Scoped scope) (herr : err.Scoped scope) :
    (checkout ok err).Scoped scope := by
  have hgit : Process.checkout.tool ∈ insert Tool.git scope := Set.mem_insert _ _
  have hok' := hok.insert Tool.git
  have herr' := herr.insert Tool.git
  have hretry : (Task.mutate .indexLock (.process .checkout ok err) err).Scoped
      (insert Tool.git scope) := ⟨⟨hgit, hok', herr'⟩, herr'⟩
  have hforce : (Task.process .checkout ok
      (either err (.mutate .indexLock (.process .checkout ok err) err))).Scoped
      (insert Tool.git scope) := ⟨hgit, hok', scoped_either herr' hretry⟩
  exact ⟨Set.mem_insert _ _, scoped_either hok' hforce, hforce⟩

theorem scoped_fetchRemotes (h : next.Scoped scope) (n : Nat) :
    (fetchRemotes next n).Scoped scope := by
  induction n with
  | zero => exact h
  | succ n ih => exact scoped_git h ih

theorem scoped_fetchMissing (h : next.Scoped scope) : (fetchMissing next).Scoped scope :=
  scoped_git h (scoped_git (scoped_fetchRemotes h) h)

theorem scoped_resolveBoth (same : Bool) (hok : ok.Scoped scope) (herr : err.Scoped scope) :
    (resolveBoth same ok err).Scoped scope := by
  have hfinal := scoped_git (scoped_git hok herr) herr
  have hmissing : (if same then fetchMissing (git (git ok err) err)
      else fetchMissing (fetchMissing (git (git ok err) err))).Scoped scope := by
    split
    · exact scoped_fetchMissing hfinal
    · exact scoped_fetchMissing (scoped_fetchMissing hfinal)
  have hfetch := scoped_git hmissing herr
  exact scoped_git (scoped_git hok hfetch) (scoped_git hfetch hfetch)

theorem scoped_pruneCache (h : next.Scoped scope) : (pruneCache next).Scoped scope := by
  intro n
  induction n with
  | zero => exact h
  | succ n ih => exact scoped_mutating _ ih

theorem scoped_dependencyFingerprint (hok : ok.Scoped scope) (herr : err.Scoped scope) :
    (dependencyFingerprintForWorkspace ok err).Scoped scope :=
  ⟨Set.mem_insert _ _, hok.insert _, herr.insert _⟩

theorem scoped_cacheEntryIsServable (known : Bool) {yes no : Bool → Task}
    (hyes : ∀ known, (yes known).Scoped scope) (hno : ∀ known, (no known).Scoped scope)
    (herr : err.Scoped scope) :
    (cacheEntryIsServable config known yes no err).Scoped scope := by
  have hcompare : ∀ known, (either (yes known) (no known)).Scoped scope := by
    intro known
    exact scoped_either (hyes known) (hno known)
  unfold cacheEntryIsServable
  split
  · apply scoped_either (hno known)
    split
    · exact hcompare true
    · exact scoped_checkout (scoped_dependencyFingerprint (hcompare true) (hno false)) herr
  · exact hyes known

theorem scoped_storeEntry (hok : ok.Scoped scope) (herr : err.Scoped scope) :
    (storeEntry config ok err).Scoped scope := by
  have hstored : (if config.remote then mutating .remotePut (mutating .memoryInsert ok)
      else mutating .memoryInsert ok).Scoped scope := by
    split
    · exact scoped_mutating _ (scoped_mutating _ hok)
    · exact scoped_mutating _ hok
  exact scoped_either herr ⟨⟨hstored, herr⟩, herr⟩

theorem scoped_finishEntry (known : Bool) (hok : ok.Scoped scope) (herr : err.Scoped scope) :
    (finishEntry config known ok err).Scoped scope := by
  have hstore := @scoped_storeEntry config scope ok err hok herr
  refine ⟨?_, herr⟩
  split
  · apply scoped_either hstore
    split
    · exact hstore
    · exact scoped_dependencyFingerprint hstore hstore
  · exact hstore

/-- A generation runs Bazel under options bound before it. -/
theorem scoped_generateEntry (tree known : Bool) (hbazel : Tool.bazel ∈ scope)
    (hok : ok.Scoped scope) (herr : err.Scoped scope) :
    (generateEntry config tree known ok err).Scoped scope := by
  have hfinished := @scoped_finishEntry config scope ok err known hok herr
  apply scoped_checkout _ herr
  refine ⟨hbazel, ?_, herr⟩
  split
  · exact scoped_either hfinished herr
  · exact hfinished

theorem scoped_classifyRevisions (hok : ok.Scoped scope) (herr : err.Scoped scope) :
    (classifyRevisions ok err).Scoped scope := by
  have hgit : Process.git.tool ∈ insert Tool.git scope := Set.mem_insert _ _
  have hshow : ∀ n, (showFiles ok err n).Scoped (insert Tool.git scope) := by
    intro n
    induction n with
    | zero => exact hok.insert _
    | succ n ih => exact ⟨hgit, ih, herr.insert _⟩
  exact ⟨hgit, hshow, herr.insert _⟩

theorem scoped_generateMissing (modifiedEmpty base known : Bool)
    (hok : ok.Scoped scope) (herr : err.Scoped scope) :
    (generateMissing config modifiedEmpty base known ok err).Scoped scope := by
  have hok' := hok.insert Tool.bazel
  have herr' := herr.insert Tool.bazel
  have hrebuild : ∀ tree, (generateEntry config tree known ok err).Scoped
      (insert Tool.bazel scope) := by
    intro tree
    exact scoped_generateEntry tree known (Set.mem_insert _ _) hok' herr'
  have hderive := scoped_either (@scoped_finishEntry config _ ok err known hok' herr')
    (hrebuild true)
  have hclassified : (if config.partialGraph && base then
      classifyRevisions (either (finishEntry config known ok err)
        (generateEntry config true known ok err)) (generateEntry config true known ok err)
      else generateEntry config true known ok err).Scoped (insert Tool.bazel scope) := by
    split
    · exact scoped_classifyRevisions hderive (hrebuild true)
    · exact hrebuild true
  show (ite _ _ _ : Task).Scoped (insert Tool.bazel scope)
  split
  · have hgit : Process.git.tool ∈ insert Tool.git (insert Tool.bazel scope) :=
      Set.mem_insert _ _
    exact ⟨hgit, ⟨hgit, hclassified.insert _, herr'.insert _⟩, herr'.insert _⟩
  · exact hrebuild false

theorem scoped_remoteLookup (known : Bool) {miss : Bool → Task} (hok : ok.Scoped scope)
    (herr : err.Scoped scope) (hmiss : ∀ known, (miss known).Scoped scope) :
    (remoteLookup config known ok err miss).Scoped scope := by
  have hserved : (Task.mutate .localEntry (mutating .memoryInsert ok) err).Scoped scope :=
    ⟨scoped_mutating _ hok, herr⟩
  unfold remoteLookup
  dsimp only
  split
  · apply scoped_either (hmiss known)
    apply scoped_either herr
    exact scoped_cacheEntryIsServable known (fun _ => hserved) hmiss herr
  · exact hmiss known

theorem scoped_localLookup (known : Bool) {miss : Bool → Task} (hok : ok.Scoped scope)
    (herr : err.Scoped scope) (hmiss : ∀ known, (miss known).Scoped scope) :
    (localLookup config known ok err miss).Scoped scope := by
  have hserved := scoped_mutating .localTouch (scoped_mutating .memoryInsert hok)
  apply scoped_either (hmiss known)
  apply scoped_either herr
  exact scoped_cacheEntryIsServable known (fun _ => hserved) hmiss herr

theorem scoped_getHashesLocked (modifiedEmpty base : Bool) (hok : ok.Scoped scope)
    (herr : err.Scoped scope) :
    (getHashesLocked config modifiedEmpty base ok err).Scoped scope := by
  have hmissing : ∀ known, (generateMissing config modifiedEmpty base known ok err).Scoped
      scope := fun known => scoped_generateMissing modifiedEmpty base known hok herr
  have hremote : ∀ known, (remoteLookup config known ok err fun known =>
      generateMissing config modifiedEmpty base known ok err).Scoped scope :=
    fun known => scoped_remoteLookup known hok herr hmissing
  have hdisk : ∀ known, (localLookup config known ok err fun known =>
      remoteLookup config known ok err fun known =>
        generateMissing config modifiedEmpty base known ok err).Scoped scope :=
    fun known => scoped_localLookup known hok herr hremote
  apply scoped_git _ herr
  apply scoped_either (hdisk false)
  apply scoped_mutating
  exact scoped_cacheEntryIsServable false (fun _ => scoped_mutating _ hok) hdisk herr

/-- Every subprocess of a query runs under an answer the query asked for itself. -/
theorem scoped_computeQuery (config : Config) (inputs : QueryInputs) :
    (computeQuery config inputs).Scoped ∅ := by
  have hfailed : (Task.finish false).Scoped (∅ : Set Tool) := trivial
  have hpruned : (pruneCache (either (.finish true) (.finish false))).Scoped (∅ : Set Tool) :=
    scoped_pruneCache (scoped_either trivial hfailed)
  have hcompared := @scoped_dependencyFingerprint ∅ _ _ (scoped_either hfailed hpruned) hfailed
  have hto : ∀ base, (getHashesLocked config inputs.modifiedEmpty base
      (checkout (.bind .bazel (.processes (either (.finish false)
        (pruneCache (either (.finish true) (.finish false)))) (.finish false)))
        (.finish false)) (.finish false)).Scoped ∅ := by
    intro base
    exact scoped_getHashesLocked _ _ (scoped_checkout hcompared hfailed) hfailed
  have hboth := @scoped_getHashesLocked config _ _ _ inputs.modifiedEmpty false
    (scoped_either (hto true) (hto false)) hfailed
  apply scoped_resolveBoth
  · cases inputs.kind with
    | impactedTargets => exact hboth
    | distances => exact hboth
    | depEdges => exact scoped_getHashesLocked _ _ hpruned hfailed
  · exact hfailed

theorem scoped_warmRevision (config : Config) : (warmRevision config).Scoped ∅ := by
  apply scoped_git
  · exact scoped_getHashesLocked _ _ trivial trivial
  · trivial

end Task

end BazelDiff.Server
