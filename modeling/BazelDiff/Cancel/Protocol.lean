/-
# The cancellation protocol

Work that may be abandoned runs its subprocesses through a token. A call registers the child it
spawned with the token, and whoever abandons the work sets the token's flag and kills what is
registered. The flag, the counter of the registrations and the registry are shared, and nothing
is held from one of them to the next, so a call and a cancellation interleave at every access. A
call looks at the flag before it spawns, once its child is registered, and after the child has
exited.
-/

import BazelDiff.Lib.Transition
import Mathlib.Algebra.Group.Nat.Defs
import Mathlib.Logic.Function.Basic
import Std.Data.ExtTreeMap.Lemmas

namespace BazelDiff.Cancel

/-! ## The shared state -/

/-- How a process ended. -/
structure ExitStatus where
  code : Int
  deriving DecidableEq

/-- A spawned subprocess. -/
structure Process where
  exit : Option ExitStatus := none
  /-- A kill was sent to it, whether or not it was delivered. -/
  killed : Bool := false
  /-- No process holds the other ends of its pipes. -/
  closed : Bool := false

/-- The token that the work and whoever may abandon it share. -/
structure Cancellation where
  cancelled : Bool := false
  /-- How often the counter was taken; it holds this number in 64 bits. -/
  nextId : Nat := 0
  /-- The calls that have a child registered, by the number they took. -/
  children : Std.ExtTreeMap Nat Nat := ∅

/-- What a call of `output_configured` comes to. -/
inductive CallResult
  /-- The error of a cancelled token. -/
  | cancelled
  | spawnFailed
  | waitFailed
  | readFailed
  | output (status : ExitStatus)
  deriving DecidableEq

/-- Where a call of `output_configured` is. -/
inductive Phase
  | idle
  /-- Before the first check. -/
  | checking
  | spawning
  /-- The child runs, and has no number yet. -/
  | spawned
  /-- Before the child is in the registry. -/
  | numbered (id : Nat)
  /-- Before the second look at the flag. -/
  | registered (id : Nat)
  /-- The flag was set; before the kill. -/
  | killing (id : Nat)
  | waiting (id : Nat)
  /-- With the exit status, or an error; before the registration is dropped. -/
  | waited (id : Nat) (status : Option ExitStatus)
  /-- Before the last check. -/
  | dropped (status : Option ExitStatus)
  /-- Before the readers are joined. -/
  | reading (status : ExitStatus)
  | ended (result : CallResult)
  deriving DecidableEq

structure Call where
  phase : Phase := .idle
  process : Option Process := none

/-- Where a call of `cancel` is. -/
inductive CancelPhase
  | idle
  /-- Before the flag is set. -/
  | storing
  /-- Before the registry is copied. -/
  | listing
  /-- With the children that are left to kill, and the kills delivered so far. -/
  | killing (children : List Nat) (delivered : Nat)
  | returned (delivered : Nat)

structure State where
  token : Cancellation := {}
  calls : Nat → Call := fun _ => {}
  cancels : Nat → CancelPhase := fun _ => .idle

def State.initial : State := {}

namespace Cancellation

/-- The number `fetch_add` hands out. -/
def freshId (token : Cancellation) : Nat :=
  token.nextId % 2 ^ 64

end Cancellation

/-! ## Steps -/

def Process.kill (process : Process) : Process :=
  { process with killed := true }

def Call.kill (call : Call) : Call :=
  { call with process := call.process.map Process.kill }

/-- A step of the call `me`: one access to what it shares, or one call of the system. -/
inductive CallStep (me : Nat) : Cancellation → Call → Cancellation → Call → Prop
  | begin {token : Cancellation} {process : Option Process} :
      CallStep me token ⟨.idle, process⟩ token ⟨.checking, process⟩
  | refuse {token : Cancellation} {process : Option Process} (h : token.cancelled = true) :
      CallStep me token ⟨.checking, process⟩ token ⟨.ended .cancelled, process⟩
  | pass {token : Cancellation} {process : Option Process} (h : token.cancelled = false) :
      CallStep me token ⟨.checking, process⟩ token ⟨.spawning, process⟩
  | spawn {token : Cancellation} {process : Option Process} :
      CallStep me token ⟨.spawning, process⟩ token ⟨.spawned, some {}⟩
  | spawnFails {token : Cancellation} {process : Option Process} :
      CallStep me token ⟨.spawning, process⟩ token ⟨.ended .spawnFailed, process⟩
  | number {token : Cancellation} {process : Option Process} :
      CallStep me token ⟨.spawned, process⟩ { token with nextId := token.nextId + 1 }
        ⟨.numbered token.freshId, process⟩
  | register {token : Cancellation} {process : Option Process} {id : Nat} :
      CallStep me token ⟨.numbered id, process⟩
        { token with children := token.children.insert id me } ⟨.registered id, process⟩
  | proceed {token : Cancellation} {process : Option Process} {id : Nat}
      (h : token.cancelled = false) :
      CallStep me token ⟨.registered id, process⟩ token ⟨.waiting id, process⟩
  | notice {token : Cancellation} {process : Option Process} {id : Nat}
      (h : token.cancelled = true) :
      CallStep me token ⟨.registered id, process⟩ token ⟨.killing id, process⟩
  | kill {token : Cancellation} {process : Option Process} {id : Nat} :
      CallStep me token ⟨.killing id, process⟩ token ⟨.waiting id, process.map Process.kill⟩
  | wait {token : Cancellation} {process : Process} {id : Nat} {status : ExitStatus}
      (h : process.exit = some status) :
      CallStep me token ⟨.waiting id, some process⟩ token ⟨.waited id (some status), some process⟩
  | waitFails {token : Cancellation} {process : Option Process} {id : Nat} :
      CallStep me token ⟨.waiting id, process⟩ token ⟨.waited id none, process⟩
  | drop {token : Cancellation} {process : Option Process} {id : Nat}
      {status : Option ExitStatus} :
      CallStep me token ⟨.waited id status, process⟩
        { token with children := token.children.erase id } ⟨.dropped status, process⟩
  | fail {token : Cancellation} {process : Option Process} :
      CallStep me token ⟨.dropped none, process⟩ token ⟨.ended .waitFailed, process⟩
  | discard {token : Cancellation} {process : Option Process} {status : ExitStatus}
      (h : token.cancelled = true) :
      CallStep me token ⟨.dropped (some status), process⟩ token ⟨.ended .cancelled, process⟩
  | keep {token : Cancellation} {process : Option Process} {status : ExitStatus}
      (h : token.cancelled = false) :
      CallStep me token ⟨.dropped (some status), process⟩ token ⟨.reading status, process⟩
  | join {token : Cancellation} {process : Process} {status : ExitStatus}
      (h : process.closed = true) :
      CallStep me token ⟨.reading status, some process⟩ token ⟨.ended (.output status), some process⟩
  | readFails {token : Cancellation} {process : Option Process} {status : ExitStatus} :
      CallStep me token ⟨.reading status, process⟩ token ⟨.ended .readFailed, process⟩

inductive Event
  /-- A step of a call. -/
  | call (call : Nat)
  /-- A look at a process that runs. -/
  | poll (call : Nat)
  /-- A step of a cancellation. -/
  | cancel (cancel : Nat)
  /-- The process of a call exits. -/
  | exit (call : Nat)
  /-- The last other end of the pipes of a call's process is closed. -/
  | close (call : Nat)
  deriving DecidableEq

/-- The state after a call went from one phase to the next. -/
def State.setCall (s : State) (i : Nat) (token : Cancellation) (call : Call) : State :=
  { s with token, calls := Function.update s.calls i call }

def State.setCancel (s : State) (j : Nat) (phase : CancelPhase) : State :=
  { s with cancels := Function.update s.cancels j phase }

@[simp]
theorem calls_setCall_self (s : State) (i : Nat) (token : Cancellation) (call : Call) :
    (s.setCall i token call).calls i = call := by
  show Function.update s.calls i call i = call
  rw [Function.update_self]

theorem calls_setCall_of_ne (s : State) {i j : Nat} (h : j ≠ i) (token : Cancellation)
    (call : Call) : (s.setCall i token call).calls j = s.calls j := by
  show Function.update s.calls i call j = s.calls j
  rw [Function.update_of_ne h]

@[simp]
theorem cancels_setCancel_self (s : State) (j : Nat) (phase : CancelPhase) :
    (s.setCancel j phase).cancels j = phase := by
  show Function.update s.cancels j phase j = phase
  rw [Function.update_self]

theorem cancels_setCancel_of_ne (s : State) {i j : Nat} (h : i ≠ j) (phase : CancelPhase) :
    (s.setCancel j phase).cancels i = s.cancels i := by
  show Function.update s.cancels j phase i = s.cancels i
  rw [Function.update_of_ne h]

/-- A step of the calls, the cancellations and the processes. A registry has no order. -/
inductive Step : State → Event → State → Prop
  | call {s : State} {i : Nat} {token : Cancellation} {call : Call}
      (h : CallStep i s.token (s.calls i) token call) :
      Step s (.call i) (s.setCall i token call)
  | poll {s : State} {i id : Nat} {process : Process}
      (hcall : s.calls i = ⟨.waiting id, some process⟩) (hrunning : process.exit = none) :
      Step s (.poll i) s
  | start {s : State} {j : Nat} (h : s.cancels j = .idle) :
      Step s (.cancel j) (s.setCancel j .storing)
  | store {s : State} {j : Nat} (h : s.cancels j = .storing) :
      Step s (.cancel j)
        { s.setCancel j .listing with token := { s.token with cancelled := true } }
  | list {s : State} {j : Nat} {children : List Nat} (h : s.cancels j = .listing)
      (hlisted : children.Perm (s.token.children.toList.map Prod.snd)) :
      Step s (.cancel j) (s.setCancel j (.killing children 0))
  | kill {s : State} {j child : Nat} {children : List Nat} {delivered : Nat}
      (h : s.cancels j = .killing (child :: children) delivered) (isOk : Bool) :
      Step s (.cancel j)
        ((s.setCall child s.token (s.calls child).kill).setCancel j
          (.killing children (delivered + if isOk then 1 else 0)))
  | finish {s : State} {j : Nat} {delivered : Nat} (h : s.cancels j = .killing [] delivered) :
      Step s (.cancel j) (s.setCancel j (.returned delivered))
  | exit {s : State} {i : Nat} {process : Process} (h : (s.calls i).process = some process)
      (hrunning : process.exit = none) (status : ExitStatus) :
      Step s (.exit i)
        (s.setCall i s.token
          { s.calls i with process := some { process with exit := some status } })
  | close {s : State} {i : Nat} {process : Process} (h : (s.calls i).process = some process) :
      Step s (.close i)
        (s.setCall i s.token { s.calls i with process := some { process with closed := true } })

end BazelDiff.Cancel
