/-
# Queries, their handlers and the shared workspace

Any number of query workers and warmups compete for one workspace. A worker queues for
it, runs its task while it holds it, and on the way out gives up three things in three
places: the workspace when `compute_query` returns or unwinds, its share of
`activeQueries` right after, and last the sender its handler listens on. The handler of
a request may stop listening at any moment, cancel the token and wait a bounded time
for the worker to end.

A token is named by the position of the party it was made for. The workspace only
stores whose token holds it, and every helper a worker calls reads that store instead
of being handed the token. That the token read is the reader's own is therefore not a
property of one call but of the whole system: the invariant is that a guard is alive
exactly for the party the store names, kept by every step of every party.

The steps are coarser than instructions only where the source holds a lock or performs
one atomic operation. Subprocesses take time: they start in one step and exit in
another, and anything may happen in between.
-/

import BazelDiff.Lib.Transition
import BazelDiff.Server.Task
import Mathlib.Data.List.Basic

namespace BazelDiff.Server

/-- What a worker of the server is doing. A result is whether the query succeeded, and
nothing when the worker panicked. -/
inductive Phase
  /-- In `Workspace::acquire`. -/
  | queued (task : Task)
  /-- Holding the workspace, with the token each tool's options captured. -/
  | holding (bound : Tool → Option Nat) (task : Task)
  /-- Waiting for a subprocess that was started under the token. -/
  | running (bound : Tool → Option Nat) (process : Process) (token : Option Nat) (ok err : Task)
  /-- In a call that runs Bazel subprocesses, with the tokens of those running now. -/
  | hashing (bound : Tool → Option Nat) (children : List (Option Nat)) (ok err : Task)
  /-- The task is over and its guard is about to be dropped. -/
  | returning (result : Option Bool)
  /-- The guard is gone and the `ActiveQuery` is about to be dropped. -/
  | released (result : Option Bool)
  /-- The query is no longer counted and its sender is about to be used or dropped. -/
  | counted (result : Option Bool)
  /-- The thread is over: its result is in the channel, or the channel is disconnected. -/
  | gone (result : Option Bool)

namespace Phase

/-- The worker owns a `WorkspaceGuard`. -/
def guardAlive : Phase → Bool
  | .holding .. | .running .. | .hashing .. | .returning _ => true
  | .queued _ | .released _ | .counted _ | .gone _ => false

/-- The worker has not dropped its `ActiveQuery`. -/
def unfinished : Phase → Bool
  | .counted _ | .gone _ => false
  | .queued _ | .holding .. | .running .. | .hashing .. | .returning _ | .released _ => true

def isGone : Phase → Bool
  | .gone _ => true
  | _ => false

/-- The tokens the subprocesses running now were started under. -/
def subprocesses : Phase → List (Option Nat)
  | .running _ _ token _ _ => [token]
  | .hashing _ children _ _ => children
  | _ => []

end Phase

/-- What the client of a request gets: the result, the error of a worker that stopped
without one, a `504` with its `cancelled` flag, or a connection closed without answer. -/
inductive Answer
  | computed (ok : Bool)
  | workerStopped
  | timedOut (cancelled : Bool)
  | dropped
  deriving DecidableEq, Repr

/-- The handler of a query request. -/
inductive Handler
  /-- In `recv` or `recv_timeout`. -/
  | waiting
  /-- Timed out, about to cancel the token. -/
  | timedOut
  /-- In `cancel_query`, waiting at most `CANCEL_GRACE` for the worker. -/
  | cancelling
  | answering (answer : Answer)
  | answered (answer : Answer)
  deriving DecidableEq, Repr

/-- The handler has seen the end of its worker. -/
def Handler.heard : Handler → Bool
  | .answering (.timedOut false) | .answered (.timedOut false) => false
  | .answering _ | .answered _ => true
  | .waiting | .timedOut | .cancelling => false

/-- A query with its handler, or a warmup, which has none. -/
structure Party where
  worker : Phase
  handler : Option Handler

/-- An accepted query that still counts. -/
def Party.unfinished (p : Party) : Bool :=
  p.handler.isSome && p.worker.unfinished

/-- What all threads share: the holder's token, the tokens' flags, the query counter. -/
structure Shared where
  holder : Option Nat
  cancelled : Nat → Bool
  activeQueries : Nat

namespace Shared

/-- `Cancellation::check` on a token, if there is one. -/
def permits (s : Shared) (token : Option Nat) : Bool :=
  !token.any s.cancelled

/-- `Workspace::check_cancelled`. -/
def checkCancelled (s : Shared) : Bool :=
  s.permits s.holder

end Shared

structure State where
  shared : Shared
  parties : List Party

def State.initial : State :=
  { shared := { holder := none, cancelled := fun _ => false, activeQueries := 0 }
    parties := [] }

/-- What a step does to the world outside the process: starts a subprocess or changes a
file or a cache tier. -/
inductive Effect
  | process (process : Process)
  | mutation (mutation : Mutation)
  deriving DecidableEq, Repr

/-- A step's label: an effect of a party with the token it happens under, or a step that
stays inside the server. -/
inductive Event
  | effect (party : Nat) (effect : Effect) (token : Option Nat)
  | internal (party : Nat)
  deriving DecidableEq, Repr

/-- The label of a party's step with or without an effect. -/
def Event.ofEffect (party : Nat) : Option (Effect × Option Nat) → Event
  | some (change, token) => .effect party change token
  | none => .internal party

/-! ## Steps of a worker -/

/-- One step of the worker of party `me`. -/
inductive WorkerStep (me : Nat) (query : Bool) :
    Shared → Phase → Option (Effect × Option Nat) → Shared → Phase → Prop
  /-- `acquire` finds the workspace free. It does not look at its own token then. -/
  | acquire {s : Shared} {task : Task} (free : s.holder = none) :
      WorkerStep me query s (.queued task) none { s with holder := some me }
        (.holding (fun _ => none) task)
  /-- `acquire` finds it taken and its own token cancelled. -/
  | giveUp {s : Shared} {task : Task} (taken : s.holder.isSome) (cancelled : s.cancelled me) :
      WorkerStep me query s (.queued task) none s (.released (some false))
  | choose {s : Shared} {bound : Tool → Option Nat} {next : Nat → Task} (n : Nat) :
      WorkerStep me query s (.holding bound (.choose next)) none s (.holding bound (next n))
  /-- `State::git` or `State::bazel_options` captures the holder. -/
  | bind {s : Shared} {bound : Tool → Option Nat} {tool : Tool} {next : Task} :
      WorkerStep me query s (.holding bound (.bind tool next)) none s
        (.holding (Function.update bound tool s.holder) next)
  | start {s : Shared} {bound : Tool → Option Nat} {process : Process} {ok err : Task}
      (permitted : s.permits (bound process.tool)) :
      WorkerStep me query s (.holding bound (.process process ok err))
        (some (.process process, bound process.tool)) s
        (.running bound process (bound process.tool) ok err)
  /-- The token is cancelled, or the program cannot be spawned. -/
  | refuse {s : Shared} {bound : Tool → Option Nat} {process : Process} {ok err : Task} :
      WorkerStep me query s (.holding bound (.process process ok err)) none s
        (.holding bound err)
  | succeed {s : Shared} {bound : Tool → Option Nat} {process : Process} {token : Option Nat}
      {ok err : Task} (permitted : s.permits token) :
      WorkerStep me query s (.running bound process token ok err) none s (.holding bound ok)
  /-- The subprocess failed, was killed, or ended after the token was cancelled. -/
  | fail {s : Shared} {bound : Tool → Option Nat} {process : Process} {token : Option Nat}
      {ok err : Task} :
      WorkerStep me query s (.running bound process token ok err) none s (.holding bound err)
  | enter {s : Shared} {bound : Tool → Option Nat} {ok err : Task} :
      WorkerStep me query s (.holding bound (.processes ok err)) none s
        (.hashing bound [] ok err)
  | spawn {s : Shared} {bound : Tool → Option Nat} {children : List (Option Nat)}
      {ok err : Task} (permitted : s.permits (bound .bazel)) :
      WorkerStep me query s (.hashing bound children ok err)
        (some (.process .bazel, bound .bazel)) s
        (.hashing bound (bound .bazel :: children) ok err)
  | exit {s : Shared} {bound : Tool → Option Nat} {children : List (Option Nat)}
      {ok err : Task} (n : Nat) :
      WorkerStep me query s (.hashing bound children ok err) none s
        (.hashing bound (children.eraseIdx n) ok err)
  | leave {s : Shared} {bound : Tool → Option Nat} {ok err next : Task}
      (result : next = ok ∨ next = err) :
      WorkerStep me query s (.hashing bound [] ok err) none s (.holding bound next)
  | mutate {s : Shared} {bound : Tool → Option Nat} {mutation : Mutation}
      {ok err next : Task} (result : next = ok ∨ next = err) :
      WorkerStep me query s (.holding bound (.mutate mutation ok err))
        (some (.mutation mutation, s.holder)) s (.holding bound next)
  | check {s : Shared} {bound : Tool → Option Nat} {ok err : Task} :
      WorkerStep me query s (.holding bound (.check ok err)) none s
        (.holding bound (if s.checkCancelled then ok else err))
  | finish {s : Shared} {bound : Tool → Option Nat} {ok : Bool} :
      WorkerStep me query s (.holding bound (.finish ok)) none s (.returning (some ok))
  | panic {s : Shared} {bound : Tool → Option Nat} {task : Task} :
      WorkerStep me query s (.holding bound task) none s (.returning none)
  /-- A panic in the hash pool reaches the worker once the pool's other jobs are done. -/
  | panicHashing {s : Shared} {bound : Tool → Option Nat} {ok err : Task} :
      WorkerStep me query s (.hashing bound [] ok err) none s (.returning none)
  /-- `WorkspaceGuard::drop`. -/
  | release {s : Shared} {result : Option Bool} :
      WorkerStep me query s (.returning result) none { s with holder := none } (.released result)
  /-- `ActiveQuery::drop`, before the result is sent and also on unwinding. -/
  | decrement {s : Shared} {result : Option Bool} (isQuery : query = true) :
      WorkerStep me query s (.released result) none
        { s with activeQueries := s.activeQueries - 1 } (.counted result)
  | send {s : Shared} {result : Option Bool} :
      WorkerStep me query s (.counted result) none s (.gone result)
  /-- A warmup is not counted and answers nobody. -/
  | warmed {s : Shared} {result : Option Bool} (isWarmup : query = false) :
      WorkerStep me query s (.released result) none s (.gone result)

/-! ## Steps of a handler -/

/-- One step of the handler of party `me`, given what its worker is doing. -/
inductive HandlerStep (timed : Bool) (me : Nat) :
    Shared → Phase → Handler → Shared → Handler → Prop
  | receive {s : Shared} {ok : Bool} :
      HandlerStep timed me s (.gone (some ok)) .waiting s (.answering (.computed ok))
  /-- The worker panicked. Without a timeout the error leaves `route` unanswered. -/
  | disconnected {s : Shared} :
      HandlerStep timed me s (.gone none) .waiting s
        (.answering (if timed then .workerStopped else .dropped))
  | timeout {s : Shared} {worker : Phase} (isTimed : timed = true) (empty : worker.isGone = false) :
      HandlerStep timed me s worker .waiting s .timedOut
  /-- `Cancellation::cancel`. The children it kills exit in steps of their own. -/
  | cancel {s : Shared} {worker : Phase} :
      HandlerStep timed me s worker .timedOut
        { s with cancelled := Function.update s.cancelled me true } .cancelling
  | stopped {s : Shared} {result : Option Bool} :
      HandlerStep timed me s (.gone result) .cancelling s (.answering (.timedOut true))
  | graceOver {s : Shared} {worker : Phase} (empty : worker.isGone = false) :
      HandlerStep timed me s worker .cancelling s (.answering (.timedOut false))
  | answer {s : Shared} {worker : Phase} {answer : Answer} :
      HandlerStep timed me s worker (.answering answer) s (.answered answer)

/-! ## Steps of the server -/

/-- One step of one party, or a new party: an accepted query, counted before its worker
runs, or a warmup. `timed` says whether the server has a request timeout. -/
inductive Step (config : Config) (timed : Bool) : State → Event → State → Prop
  | worker {s : State} {i : Nat} {p : Party} {effect : Option (Effect × Option Nat)}
      {shared : Shared} {phase : Phase} (party : s.parties[i]? = some p)
      (step : WorkerStep i p.handler.isSome s.shared p.worker effect shared phase) :
      Step config timed s (.ofEffect i effect)
        { shared := shared, parties := s.parties.set i { p with worker := phase } }
  | handler {s : State} {i : Nat} {p : Party} {handler next : Handler} {shared : Shared}
      (party : s.parties[i]? = some p) (handles : p.handler = some handler)
      (step : HandlerStep timed i s.shared p.worker handler shared next) :
      Step config timed s (.internal i)
        { shared := shared, parties := s.parties.set i { p with handler := some next } }
  | accept {s : State} (inputs : QueryInputs) :
      Step config timed s (.internal s.parties.length)
        { shared :=
            { s.shared with
              cancelled := Function.update s.shared.cancelled s.parties.length false
              activeQueries := s.shared.activeQueries + 1 }
          parties := s.parties ++ [⟨.queued (Task.computeQuery config inputs), some .waiting⟩] }
  | warm {s : State} :
      Step config timed s (.internal s.parties.length)
        { shared :=
            { s.shared with
              cancelled := Function.update s.shared.cancelled s.parties.length false }
          parties := s.parties ++ [⟨.queued (Task.warmRevision config), none⟩] }

/-! ## One step of one party -/

/-- What a party's worker keeps: its task asks before it runs, and every token it has
captured and still uses is its own. -/
def Phase.Owned (me : Nat) : Phase → Prop
  | .queued task => task.Scoped ∅
  | .holding bound task => task.Scoped {tool | bound tool = some me}
  | .running bound _ token ok err =>
      token = some me ∧ ok.Scoped {tool | bound tool = some me} ∧
        err.Scoped {tool | bound tool = some me}
  | .hashing bound children ok err =>
      bound .bazel = some me ∧ (∀ token ∈ children, token = some me) ∧
        ok.Scoped {tool | bound tool = some me} ∧ err.Scoped {tool | bound tool = some me}
  | .returning _ | .released _ | .counted _ | .gone _ => True

namespace WorkerStep

variable {me : Nat} {query : Bool} {s s' : Shared} {phase phase' : Phase}
  {effect : Option (Effect × Option Nat)}

/-- A worker takes the workspace only when it is free and frees only its own. -/
theorem guard (step : WorkerStep me query s phase effect s' phase')
    (h : phase.guardAlive = true ↔ s.holder = some me) :
    phase'.guardAlive = true ↔ s'.holder = some me := by
  cases step <;> simp_all [Phase.guardAlive]

theorem holder_other (step : WorkerStep me query s phase effect s' phase')
    (h : phase.guardAlive = true ↔ s.holder = some me) {i : Nat} (hi : i ≠ me) :
    s'.holder = some i ↔ s.holder = some i := by
  have hi' : me ≠ i := fun heq => hi heq.symm
  cases step <;> simp_all [Phase.guardAlive]

theorem owned (step : WorkerStep me query s phase effect s' phase')
    (hguard : phase.guardAlive = true ↔ s.holder = some me) (h : phase.Owned me) :
    phase'.Owned me := by
  cases step with
  | acquire free => exact Task.Scoped.mono h (Set.empty_subset _)
  | giveUp taken cancelled => trivial
  | choose n => exact h n
  | @bind bound tool next =>
      have hholder : s.holder = some me := hguard.mp rfl
      have hnext : next.Scoped (insert tool {tool | bound tool = some me}) := h
      apply hnext.mono
      intro other hother
      show Function.update bound tool s.holder other = some me
      rw [Function.update_apply]
      split
      · exact hholder
      · next hne => exact hother.resolve_left hne
  | start permitted => exact ⟨h.1, h.2⟩
  | refuse => exact h.2.2
  | succeed permitted => exact h.2.1
  | fail => exact h.2.2
  | enter => exact ⟨h.1, by simp, h.2⟩
  | spawn permitted =>
      refine ⟨h.1, ?_, h.2.2⟩
      intro token htoken
      rcases List.mem_cons.mp htoken with rfl | htoken
      · exact h.1
      · exact h.2.1 token htoken
  | exit n =>
      refine ⟨h.1, ?_, h.2.2⟩
      intro token htoken
      exact h.2.1 token (List.mem_of_mem_eraseIdx htoken)
  | leave result =>
      rcases result with rfl | rfl
      · exact h.2.2.1
      · exact h.2.2.2
  | mutate result =>
      rcases result with rfl | rfl
      · exact h.1
      · exact h.2
  | check =>
      show Task.Scoped (ite _ _ _) _
      split
      · exact h.1
      · exact h.2
  | finish => trivial
  | panic => trivial
  | panicHashing => trivial
  | release => trivial
  | decrement isQuery => trivial
  | send => trivial
  | warmed isWarmup => trivial

/-- Whatever a worker does to the world, it does as the holder and under its own token. -/
theorem effect_own {change : Effect} {token : Option Nat}
    (step : WorkerStep me query s phase (some (change, token)) s' phase')
    (hguard : phase.guardAlive = true ↔ s.holder = some me) (h : phase.Owned me) :
    s.holder = some me ∧ token = some me := by
  cases step with
  | start permitted => exact ⟨hguard.mp rfl, h.1⟩
  | spawn permitted => exact ⟨hguard.mp rfl, h.1⟩
  | mutate result => exact ⟨hguard.mp rfl, hguard.mp rfl⟩

/-- The counter moves with the worker's share of it. -/
theorem active (step : WorkerStep me query s phase effect s' phase')
    (h : (query && phase.unfinished) = true → 1 ≤ s.activeQueries) :
    s'.activeQueries + (query && phase.unfinished).toNat =
      s.activeQueries + (query && phase'.unfinished).toNat := by
  cases step <;> simp_all [Phase.unfinished]

theorem not_gone (step : WorkerStep me query s phase effect s' phase') :
    phase.isGone = false := by
  cases step <;> rfl

end WorkerStep

namespace HandlerStep

variable {timed : Bool} {me : Nat} {s s' : Shared} {worker : Phase} {handler handler' : Handler}

/-- A handler only ever touches its own token's flag. -/
theorem shared (step : HandlerStep timed me s worker handler s' handler') :
    s'.holder = s.holder ∧ s'.activeQueries = s.activeQueries := by
  cases step <;> exact ⟨rfl, rfl⟩

/-- A handler reports the end of its worker only after it. -/
theorem heard (step : HandlerStep timed me s worker handler s' handler')
    (h : handler.heard = true → worker.isGone = true) (h' : handler'.heard = true) :
    worker.isGone = true := by
  cases step with
  | receive => rfl
  | disconnected => rfl
  | timeout isTimed empty => cases h'
  | cancel => cases h'
  | stopped => rfl
  | graceOver empty => cases h'
  | @answer _ given =>
      apply h
      cases given with
      | timedOut cancelled =>
          cases cancelled with
          | true => rfl
          | false => cases h'
      | computed ok => rfl
      | workerStopped => rfl
      | dropped => rfl

end HandlerStep

/-! ## The invariant of the whole system -/

/-- A guard is alive exactly for the party the workspace names, every party's tokens are
its own, the counter is the number of unfinished queries, and a handler that reports the
end of its worker is right. -/
structure Consistent (s : State) : Prop where
  guard : ∀ (i : Nat) (p : Party), s.parties[i]? = some p →
    (p.worker.guardAlive = true ↔ s.shared.holder = some i)
  present : ∀ i : Nat, s.shared.holder = some i → i < s.parties.length
  owned : ∀ (i : Nat) (p : Party), s.parties[i]? = some p → p.worker.Owned i
  active : s.shared.activeQueries = s.parties.countP Party.unfinished
  heard : ∀ (i : Nat) (p : Party) (handler : Handler), s.parties[i]? = some p →
    p.handler = some handler → handler.heard = true → p.worker.isGone = true

theorem consistent_initial : Consistent State.initial where
  guard := by simp [State.initial]
  present := by simp [State.initial]
  owned := by simp [State.initial]
  active := rfl
  heard := by simp [State.initial]

/-- A party's counted share, in a list where it stands at a known place. -/
theorem countP_set_add {α : Type} (f : α → Bool) {l : List α} {i : Nat} {a b : α}
    (h : l[i]? = some a) : (l.set i b).countP f + (f a).toNat = l.countP f + (f b).toNat := by
  induction l generalizing i with
  | nil => simp at h
  | cons x l ih =>
      cases i with
      | zero =>
          obtain rfl : x = a := by simpa using h
          simp only [List.set_cons_zero, List.countP_cons]
          cases f x <;> cases f b <;> simp
      | succ i =>
          have := ih (by simpa using h)
          simp only [List.set_cons_succ, List.countP_cons]
          omega

theorem one_le_countP {α : Type} (f : α → Bool) {l : List α} {i : Nat} {a : α}
    (h : l[i]? = some a) (ha : f a = true) : 1 ≤ l.countP f := by
  have hmem : a ∈ l := List.mem_of_getElem? h
  exact List.countP_pos_iff.mpr ⟨a, hmem, ha⟩

namespace Consistent

variable {config : Config} {timed : Bool} {s : State}

theorem worker_step (hs : Consistent s) {i : Nat} {p : Party}
    {effect : Option (Effect × Option Nat)} {shared : Shared} {phase : Phase}
    (party : s.parties[i]? = some p)
    (step : WorkerStep i p.handler.isSome s.shared p.worker effect shared phase) :
    Consistent ⟨shared, s.parties.set i { p with worker := phase }⟩ := by
  have hguard := hs.guard i p party
  have hi : i < s.parties.length := (List.getElem?_eq_some_iff.mp party).1
  constructor
  · intro j q hq
    rw [List.getElem?_set] at hq
    by_cases hj : i = j
    · subst hj
      obtain rfl : { p with worker := phase } = q := by simpa [hi] using hq
      exact step.guard hguard
    · rw [if_neg hj] at hq
      have hother := step.holder_other hguard (Ne.symm hj)
      exact (hs.guard j q hq).trans hother.symm
  · intro j hj
    rw [List.length_set]
    by_cases hij : j = i
    · exact hij ▸ hi
    · exact hs.present j ((step.holder_other hguard hij).mp hj)
  · intro j q hq
    rw [List.getElem?_set] at hq
    by_cases hj : i = j
    · subst hj
      obtain rfl : { p with worker := phase } = q := by simpa [hi] using hq
      exact step.owned hguard (hs.owned i p party)
    · rw [if_neg hj] at hq
      exact hs.owned j q hq
  · have hset := @countP_set_add _ Party.unfinished _ _ _ { p with worker := phase } party
    have hpos : p.unfinished = true → 1 ≤ s.shared.activeQueries := by
      intro hp
      rw [hs.active]
      exact one_le_countP _ party hp
    have hmove := step.active hpos
    have hactive := hs.active
    simp only [Party.unfinished] at hset hmove ⊢
    omega
  · intro j q handler hq hhandler hheard
    rw [List.getElem?_set] at hq
    by_cases hj : i = j
    · subst hj
      obtain rfl : { p with worker := phase } = q := by simpa [hi] using hq
      have hgone := hs.heard i p handler party hhandler hheard
      rw [step.not_gone] at hgone
      cases hgone
    · rw [if_neg hj] at hq
      exact hs.heard j q handler hq hhandler hheard

theorem handler_step (hs : Consistent s) {i : Nat} {p : Party} {handler next : Handler}
    {shared : Shared} (party : s.parties[i]? = some p) (handles : p.handler = some handler)
    (step : HandlerStep timed i s.shared p.worker handler shared next) :
    Consistent ⟨shared, s.parties.set i { p with handler := some next }⟩ := by
  have hi : i < s.parties.length := (List.getElem?_eq_some_iff.mp party).1
  obtain ⟨hholder, hactive⟩ := step.shared
  have hworker : ∀ (j : Nat) (q : Party),
      (s.parties.set i { p with handler := some next })[j]? = some q →
      ∃ q', s.parties[j]? = some q' ∧ q.worker = q'.worker := by
    intro j q hq
    rw [List.getElem?_set] at hq
    by_cases hj : i = j
    · subst hj
      obtain rfl : { p with handler := some next } = q := by simpa [hi] using hq
      exact ⟨p, party, rfl⟩
    · rw [if_neg hj] at hq
      exact ⟨q, hq, rfl⟩
  constructor
  · intro j q hq
    obtain ⟨q', hq', heq⟩ := hworker j q hq
    show q.worker.guardAlive = true ↔ shared.holder = some j
    rw [heq, hholder]
    exact hs.guard j q' hq'
  · intro j hj
    rw [List.length_set]
    exact hs.present j (hholder.symm.trans hj)
  · intro j q hq
    obtain ⟨q', hq', heq⟩ := hworker j q hq
    rw [heq]
    exact hs.owned j q' hq'
  · have hset := @countP_set_add _ Party.unfinished _ _ _ { p with handler := some next } party
    have hsame : Party.unfinished { p with handler := some next } = p.unfinished := by
      simp [Party.unfinished, handles]
    show shared.activeQueries =
      (s.parties.set i { p with handler := some next }).countP Party.unfinished
    rw [hactive, hs.active]
    rw [hsame] at hset
    omega
  · intro j q other hq hhandler hheard
    rw [List.getElem?_set] at hq
    by_cases hj : i = j
    · subst hj
      obtain rfl : { p with handler := some next } = q := by simpa [hi] using hq
      obtain rfl : next = other := by simpa using hhandler
      exact step.heard (hs.heard i p handler party handles) hheard
    · rw [if_neg hj] at hq
      exact hs.heard j q other hq hhandler hheard

/-- A party that joins is queued under a token of its own. -/
theorem join (hs : Consistent s) {task : Task} (htask : task.Scoped ∅) {handler : Option Handler}
    (hhandler : ∀ h, handler = some h → h.heard = false) {shared : Shared}
    (hholder : shared.holder = s.shared.holder)
    (hactive : shared.activeQueries = s.shared.activeQueries + handler.isSome.toNat) :
    Consistent ⟨shared, s.parties ++ [⟨.queued task, handler⟩]⟩ := by
  have hcases : ∀ (j : Nat) (q : Party),
      (s.parties ++ [⟨.queued task, handler⟩])[j]? = some q →
      s.parties[j]? = some q ∨ j = s.parties.length ∧ q = ⟨.queued task, handler⟩ := by
    intro j q hq
    by_cases hj : j < s.parties.length
    · rw [List.getElem?_append_left hj] at hq
      exact Or.inl hq
    · have hlt := (List.getElem?_eq_some_iff.mp hq).1
      rw [List.length_append, List.length_singleton] at hlt
      obtain rfl : j = s.parties.length := by omega
      rw [List.getElem?_concat_length] at hq
      exact Or.inr ⟨rfl, (Option.some.inj hq).symm⟩
  constructor
  · intro j q hq
    show q.worker.guardAlive = true ↔ shared.holder = some j
    rw [hholder]
    rcases hcases j q hq with hq | ⟨rfl, rfl⟩
    · exact hs.guard j q hq
    · constructor
      · intro h
        cases h
      · intro h
        exact absurd (hs.present _ h) (Nat.lt_irrefl _)
  · intro j hj
    have := hs.present j (hholder.symm.trans hj)
    rw [List.length_append]
    omega
  · intro j q hq
    rcases hcases j q hq with hq | ⟨rfl, rfl⟩
    · exact hs.owned j q hq
    · exact htask
  · show shared.activeQueries = _
    rw [List.countP_append, hactive, hs.active]
    cases handler <;> rfl
  · intro j q h hq hh hheard
    rcases hcases j q hq with hq | ⟨rfl, rfl⟩
    · exact hs.heard j q h hq hh hheard
    · rw [hhandler h hh] at hheard
      cases hheard

/-- Every step of every party keeps the invariant. -/
theorem step (hs : Consistent s) {event : Event} {t : State}
    (hstep : Step config timed s event t) : Consistent t := by
  cases hstep with
  | worker party step => exact hs.worker_step party step
  | handler party handles step => exact hs.handler_step party handles step
  | accept inputs =>
      refine hs.join (Task.scoped_computeQuery config inputs) ?_ rfl rfl
      intro h heq
      obtain rfl : Handler.waiting = h := by simpa using heq
      rfl
  | warm =>
      refine hs.join (Task.scoped_warmRevision config) ?_ rfl rfl
      intro h heq
      cases heq

/-- An effect is its party's, done as the holder and under the party's own token. -/
theorem effect_own (hs : Consistent s) {i : Nat} {change : Effect} {token : Option Nat}
    {t : State} (hstep : Step config timed s (.effect i change token) t) :
    s.shared.holder = some i ∧ token = some i := by
  generalize hevent : Event.effect i change token = event at hstep
  cases hstep with
  | @worker j p effect shared phase party step =>
      cases effect with
      | none => cases hevent
      | some pair =>
          obtain ⟨change', token'⟩ := pair
          cases hevent
          exact step.effect_own (hs.guard _ _ party) (hs.owned _ _ party)
  | handler party handles step => cases hevent
  | accept inputs => cases hevent
  | warm => cases hevent

theorem subprocesses_own (hs : Consistent s) {i : Nat} {p : Party}
    (party : s.parties[i]? = some p) {token : Option Nat}
    (htoken : token ∈ p.worker.subprocesses) :
    s.shared.holder = some i ∧ token = some i := by
  have hguard := hs.guard i p party
  have howned := hs.owned i p party
  generalize p.worker = phase at htoken hguard howned
  cases phase with
  | running bound process started ok err =>
      obtain rfl : token = started := by simpa [Phase.subprocesses] using htoken
      exact ⟨hguard.mp rfl, howned.1⟩
  | hashing bound children ok err => exact ⟨hguard.mp rfl, howned.2.1 token htoken⟩
  | queued task => cases htoken
  | holding bound task => cases htoken
  | returning result => cases htoken
  | released result => cases htoken
  | counted result => cases htoken
  | gone result => cases htoken

/-- The party's worker thread is over. -/
def Over (i : Nat) (s : State) : Prop :=
  ∃ p, s.parties[i]? = some p ∧ p.worker.isGone = true

/-- A worker that is over stays over, and takes no step. -/
theorem over_step {i : Nat} (hover : Over i s) {event : Event} {t : State}
    (hstep : Step config timed s event t) : Over i t := by
  obtain ⟨p, hp, hgone⟩ := hover
  have hi : i < s.parties.length := (List.getElem?_eq_some_iff.mp hp).1
  cases hstep with
  | @worker j q effect shared phase party step =>
      have hne : j ≠ i := by
        rintro rfl
        obtain rfl : q = p := Option.some.inj (party.symm.trans hp)
        rw [step.not_gone] at hgone
        cases hgone
      refine ⟨p, ?_, hgone⟩
      rw [List.getElem?_set_ne hne]
      exact hp
  | @handler j q handler next shared party handles step =>
      by_cases hj : j = i
      · subst hj
        obtain rfl : q = p := Option.some.inj (party.symm.trans hp)
        refine ⟨{ q with handler := some next }, ?_, hgone⟩
        exact List.getElem?_set_self hi
      · refine ⟨p, ?_, hgone⟩
        rw [List.getElem?_set_ne hj]
        exact hp
  | accept inputs => exact ⟨p, (List.getElem?_append_left hi).trans hp, hgone⟩
  | warm => exact ⟨p, (List.getElem?_append_left hi).trans hp, hgone⟩

theorem over_effect {i : Nat} (hs : Consistent s) (hover : Over i s) {event : Event} {t : State}
    (hstep : Step config timed s event t) (change : Effect) (token : Option Nat) :
    event ≠ .effect i change token := by
  rintro rfl
  obtain ⟨p, hp, hgone⟩ := hover
  have hguard := (hs.guard i p hp).mpr (hs.effect_own hstep).1
  generalize p.worker = phase at hgone hguard
  cases phase <;> simp_all [Phase.isGone, Phase.guardAlive]

end Consistent

theorem consistent_reachable {config : Config} {timed : Bool} {s : State}
    (h : Reachable (Step config timed) State.initial s) : Consistent s :=
  h.invariant consistent_initial fun _ _ _ hs hstep => hs.step hstep

/-- In every reachable state at most one guard is alive and the workspace names its
owner; every effect, and every subprocess still running, is the holder's under its own
token; the counter is the number of accepted unfinished queries; and once a handler has
answered `504` with `cancelled` set, no run continues with an effect of its worker. -/
theorem workspace_held_by_one (config : Config) (timed : Bool) (s : State)
    (h : Reachable (Step config timed) State.initial s) :
    (∀ (i j : Nat) (p q : Party), s.parties[i]? = some p → s.parties[j]? = some q →
      p.worker.guardAlive = true → q.worker.guardAlive = true → i = j) ∧
    (∀ (i : Nat) (p : Party), s.parties[i]? = some p →
      (p.worker.guardAlive = true ↔ s.shared.holder = some i)) ∧
    (∀ (i : Nat) (change : Effect) (token : Option Nat) (t : State),
      Step config timed s (.effect i change token) t →
      s.shared.holder = some i ∧ token = some i) ∧
    (∀ (i : Nat) (p : Party), s.parties[i]? = some p → ∀ token ∈ p.worker.subprocesses,
      s.shared.holder = some i ∧ token = some i) ∧
    s.shared.activeQueries = s.parties.countP Party.unfinished ∧
    (∀ (i : Nat) (p : Party), s.parties[i]? = some p →
      p.handler = some (.answered (.timedOut true)) →
      ∀ (events : List Event) (t : State), Run (Step config timed) s events t →
      ∀ (change : Effect) (token : Option Nat), Event.effect i change token ∉ events) := by
  have hs := consistent_reachable h
  refine ⟨?_, hs.guard, ?_, ?_, hs.active, ?_⟩
  · intro i j p q hp hq hpa hqa
    have hi := (hs.guard i p hp).mp hpa
    have hj := (hs.guard j q hq).mp hqa
    exact Option.some.inj (hi.symm.trans hj)
  · intro i change token t hstep
    exact hs.effect_own hstep
  · intro i p hp token htoken
    exact hs.subprocesses_own hp htoken
  · intro i p hp hanswered events t run change token hmem
    have hover : Consistent.Over i s := ⟨p, hp, hs.heard i p _ hp hanswered rfl⟩
    have hlabels := run.labels
      (P := fun u => Consistent u ∧ Consistent.Over i u)
      (Q := fun event => event ≠ .effect i change token)
      (fun u e v hu hstep => ⟨hu.1.step hstep, Consistent.over_step hu.2 hstep⟩)
      (fun u e v hu hstep => hu.1.over_effect hu.2 hstep change token) ⟨hs, hover⟩
    exact hlabels _ hmem rfl

/-- The end of a query that was abandoned during its first subprocess. -/
def abandoned : State :=
  { shared :=
      { holder := none
        cancelled := Function.update (Function.update (fun _ => false) 0 false) 0 true
        activeQueries := 0 }
    parties := [⟨.gone (some false), some (.answered (.timedOut true))⟩] }

theorem abandoned_reachable :
    Reachable (Step ⟨false, false, false, false⟩ true) State.initial abandoned := by
  apply Exists.intro
  apply Run.cons (.accept ⟨true, true, .depEdges⟩)
  apply Run.cons (@Step.worker _ _ _ 0 _ _ _ _ rfl (.acquire rfl))
  apply Run.cons (@Step.worker _ _ _ 0 _ _ _ _ rfl .bind)
  apply Run.cons (@Step.worker _ _ _ 0 _ _ _ _ rfl (.start rfl))
  apply Run.cons (@Step.handler _ _ _ 0 _ _ _ _ rfl rfl (.timeout rfl rfl))
  apply Run.cons (@Step.handler _ _ _ 0 _ _ _ _ rfl rfl .cancel)
  apply Run.cons (@Step.worker _ _ _ 0 _ _ _ _ rfl .fail)
  apply Run.cons (@Step.worker _ _ _ 0 _ _ _ _ rfl .bind)
  apply Run.cons (@Step.worker _ _ _ 0 _ _ _ _ rfl .refuse)
  apply Run.cons (@Step.worker _ _ _ 0 _ _ _ _ rfl .bind)
  apply Run.cons (@Step.worker _ _ _ 0 _ _ _ _ rfl .refuse)
  apply Run.cons (@Step.worker _ _ _ 0 _ _ _ _ rfl .finish)
  apply Run.cons (@Step.worker _ _ _ 0 _ _ _ _ rfl .release)
  apply Run.cons (@Step.worker _ _ _ 0 _ _ _ _ rfl (.decrement rfl))
  apply Run.cons (@Step.worker _ _ _ 0 _ _ _ _ rfl .send)
  apply Run.cons (@Step.handler _ _ _ 0 _ _ _ _ rfl rfl .stopped)
  apply Run.cons (@Step.handler _ _ _ 0 _ _ _ _ rfl rfl .answer)
  exact .nil _

theorem abandoned_is_silent :
    abandoned.shared.activeQueries = abandoned.parties.countP Party.unfinished ∧
      ∀ (events : List Event) (t : State),
        Run (Step ⟨false, false, false, false⟩ true) abandoned events t →
        ∀ (change : Effect) (token : Option Nat), Event.effect 0 change token ∉ events := by
  have hheld := workspace_held_by_one _ true abandoned abandoned_reachable
  exact ⟨hheld.2.2.2.2.1, hheld.2.2.2.2.2 0 _ rfl rfl⟩

end BazelDiff.Server
