/-
# A cancelled call ends

A call takes its steps without waiting for another party, except that it waits for its child to
exit and for the pipes of the child to be closed. Once a cancellation has returned, a child that
is waited for was sent a kill; if such a child exits in the end, every call that is not joining
its readers ends, however calls and cancellations are scheduled, as long as each gets its turn.
-/

import BazelDiff.Cancel.Safety
import BazelDiff.Lib.Fairness

namespace BazelDiff.Cancel

/-- How many steps a call has before it at the most. -/
def Phase.rank : Phase → Nat
  | .idle => 11
  | .checking => 10
  | .spawning => 9
  | .spawned => 8
  | .numbered _ => 7
  | .registered _ => 6
  | .killing _ => 5
  | .waiting _ => 4
  | .waited _ _ => 3
  | .dropped _ => 2
  | .reading _ => 1
  | .ended _ => 0

theorem Phase.waiting_of_rank {phase : Phase} {id : Nat}
    (h : phase.rank = (Phase.waiting id).rank) : ∃ other, phase = .waiting other := by
  cases phase with
  | waiting other => exact ⟨other, rfl⟩
  | _ => simp [Phase.rank] at h

/-- A call that has begun and need not wait. -/
def Call.ready (call : Call) : Bool :=
  match call.phase with
  | .idle => false
  | .waiting _ => call.exit.isSome
  | .reading _ => call.process.any Process.closed
  | .ended _ => false
  | _ => true

theorem CallStep.rank_lt {me : Nat} {token token' : Cancellation} {call call' : Call}
    (step : CallStep me token call token' call') : call'.phase.rank < call.phase.rank := by
  cases step <;> simp [Phase.rank]

/-- A call that is ready can take a step. -/
theorem exists_callStep (me : Nat) (token : Cancellation) {call : Call} (h : call.ready = true) :
    ∃ token' call', CallStep me token call token' call' := by
  obtain ⟨phase, process⟩ := call
  cases phase with
  | idle => cases h
  | checking =>
      cases hflag : token.cancelled with
      | true => exact ⟨_, _, .refuse hflag⟩
      | false => exact ⟨_, _, .pass hflag⟩
  | spawning => exact ⟨_, _, .spawn⟩
  | spawned => exact ⟨_, _, .number⟩
  | numbered id => exact ⟨_, _, .register⟩
  | registered id =>
      cases hflag : token.cancelled with
      | true => exact ⟨_, _, .notice hflag⟩
      | false => exact ⟨_, _, .proceed hflag⟩
  | killing id => exact ⟨_, _, .kill⟩
  | waiting id =>
      obtain ⟨status, hexit⟩ := Option.isSome_iff_exists.mp h
      obtain ⟨process, rfl, hexit⟩ := Option.bind_eq_some_iff.mp hexit
      exact ⟨_, _, .wait hexit⟩
  | waited id status => exact ⟨_, _, .drop⟩
  | dropped status =>
      cases status with
      | none => exact ⟨_, _, .fail⟩
      | some status =>
          cases hflag : token.cancelled with
          | true => exact ⟨_, _, .discard hflag⟩
          | false => exact ⟨_, _, .keep hflag⟩
  | reading status =>
      cases process with
      | none => cases h
      | some process => exact ⟨_, _, .join h⟩
  | ended result => cases h

theorem exists_step_of_ready {s : State} {i : Nat} (h : (s.calls i).ready = true) :
    ∃ t, Step s (.call i) t := by
  obtain ⟨token, call, hstep⟩ := exists_callStep i s.token h
  exact ⟨_, .call hstep⟩

/-- A step of a call is one of its own. -/
theorem Step.callStep {s t : State} {i : Nat} (step : Step s (.call i) t) :
    CallStep i s.token (s.calls i) t.token (t.calls i) := by
  cases step with
  | call h =>
      rw [calls_setCall_self]
      exact h

/-- A call that is ready, and not joining its readers, stays so until it takes a step. -/
theorem Call.Ages.ready {old new : Call} (h : Call.Ages old new) (hready : old.ready = true)
    (hreading : ∀ status, old.phase ≠ .reading status) : new.ready = true := by
  have hphase := h.phase
  rw [Call.ready] at hready ⊢
  rw [hphase]
  cases hold : old.phase with
  | waiting id =>
      rw [hold] at hready
      obtain ⟨status, hexit⟩ := Option.isSome_iff_exists.mp hready
      exact Option.isSome_of_mem (h.exit hexit)
  | reading status => exact absurd hold (hreading status)
  | idle => rw [hold] at hready; exact hready
  | ended result => rw [hold] at hready; exact hready
  | _ => rfl

/-- A cancellation that has returned stays so. -/
theorem Step.returned {s t : State} {event : Event} (step : Step s event t) {j delivered : Nat}
    (h : s.cancels j = .returned delivered) : t.cancels j = .returned delivered := by
  rcases step.cancel_cases j with hsame | ⟨hphase, -⟩ | ⟨hphase, -⟩ | ⟨hphase, -⟩ |
    ⟨child, children, before, after, hphase, -⟩ | ⟨before, hphase, -⟩
  · rw [hsame, h]
  all_goals
    rw [hphase] at h
    cases h

/-- A call that has begun and is not going to return output. -/
def Phase.under (phase : Phase) : Prop :=
  phase ≠ .idle ∧ ∀ status, phase ≠ .reading status

/-- Such a call has ended, or is ready, or waits for a child that runs. -/
theorem Call.ready_or_waiting {call : Call} (h : call.phase.under) :
    (∃ result, call.phase = .ended result) ∨ call.ready = true ∨
      (∃ id, call.phase = .waiting id) ∧ call.exit = none := by
  rw [Call.ready]
  cases hphase : call.phase with
  | idle => exact absurd hphase h.1
  | reading status => exact absurd hphase (h.2 status)
  | ended result => exact Or.inl ⟨result, rfl⟩
  | waiting id =>
      cases hexit : call.exit with
      | none => exact Or.inr (Or.inr ⟨⟨id, rfl⟩, rfl⟩)
      | some status => exact Or.inr (Or.inl rfl)
  | _ => exact Or.inr (Or.inl rfl)

/-- Under a set flag no call goes on to return output. -/
theorem CallStep.under {me : Nat} {token token' : Cancellation} {call call' : Call}
    (step : CallStep me token call token' call') (hflag : token.cancelled = true) :
    call'.phase.under := by
  cases step with
  | keep hclear =>
      rw [hflag] at hclear
      cases hclear
  | _ => exact ⟨fun hphase => (nomatch hphase), fun status hphase => (nomatch hphase)⟩

theorem Step.under {s t : State} {event : Event} (step : Step s event t)
    (hflag : s.token.cancelled = true) {i : Nat} (h : (s.calls i).phase.under) :
    (t.calls i).phase.under := by
  rcases step.call_cases i with ⟨-, hcall⟩ | hages
  · exact hcall.under hflag
  · rw [hages.phase]
    exact h

theorem Step.rank_le {s t : State} {event : Event} (step : Step s event t) (i : Nat) :
    (t.calls i).phase.rank ≤ (s.calls i).phase.rank := by
  rcases step.call_cases i with ⟨-, hcall⟩ | hages
  · exact Nat.le_of_lt hcall.rank_lt
  · exact Nat.le_of_eq (congrArg Phase.rank hages.phase)

/-- Only its own steps take a call on. -/
theorem Step.ages {s t : State} {event : Event} (step : Step s event t) {i : Nat}
    (h : event ≠ .call i) : Call.Ages (s.calls i) (t.calls i) :=
  (step.call_cases i).resolve_left fun hcall => h hcall.1

section Fair

variable {trace : Trace Step} {i : Nat}

/-- A call that is ready gets its turn. -/
theorem rank_falls_of_ready
    (hfair : trace.Fair (fun s => (s.calls i).ready = true) (· = .call i)) {n : Nat}
    (hready : ((trace.state n).calls i).ready = true)
    (hunder : ((trace.state n).calls i).phase.under) :
    ∃ m, n ≤ m ∧
      ((trace.state m).calls i).phase.rank < ((trace.state n).calls i).phase.rank := by
  obtain ⟨m, event, hnm, hevent, rfl, -, hphase⟩ := hfair.taken
    (P := fun s => (s.calls i).ready = true ∧
      (s.calls i).phase = ((trace.state n).calls i).phase)
    (fun s event t hs step hother => by
      have hages := step.ages hother
      exact ⟨hages.ready hs.1 (hs.2 ▸ hunder.2), hages.phase.trans hs.2⟩)
    (fun s hs => hs.1) ⟨hready, rfl⟩
  refine ⟨m + 1, Nat.le_succ_of_le hnm, ?_⟩
  rw [← hphase]
  exact (trace.next m _ hevent).callStep.rank_lt

/-- A call that waits once a cancellation has returned waits for a child that was sent a kill. -/
theorem Supervised.killed_of_returned {s : State} (h : Supervised s) {i j id delivered : Nat}
    (hreturned : s.cancels j = .returned delivered) (hwaiting : (s.calls i).phase = .waiting id) :
    (s.calls i).killed = true := by
  have haware := h.aware hwaiting (j := j) (by rw [hreturned]; rfl)
  rw [hreturned] at haware
  exact haware.resolve_right List.not_mem_nil

/-- **Once a cancellation has returned, every call that has begun ends, unless it is joining the
readers of a process that ended by itself before the flag was set.** Until then it can always
take a step of its own, or waits for a child that was sent a kill and still runs. -/
theorem cancelled_calls_end (hstart : Reachable Step State.initial (trace.state 0))
    (hbound : ∀ n, (trace.state n).token.nextId ≤ 2 ^ 64)
    (hfair : trace.Fair (fun s => (s.calls i).ready = true) (· = .call i))
    (hdies : ∀ n, ((trace.state n).calls i).killed = true →
      ∃ m, n ≤ m ∧ ((trace.state m).calls i).exit.isSome = true)
    {n j delivered : Nat} (hreturned : (trace.state n).cancels j = .returned delivered)
    (hbegun : ((trace.state n).calls i).phase ≠ .idle)
    (hreading : ∀ status, ((trace.state n).calls i).phase ≠ .reading status) :
    (∃ m, n ≤ m ∧ ∃ result, ((trace.state m).calls i).phase = .ended result) ∧
      ∀ m, n ≤ m → (∃ result, ((trace.state m).calls i).phase = .ended result) ∨
        (∃ t, Step (trace.state m) (.call i) t) ∨
        ((trace.state m).calls i).killed = true ∧ ((trace.state m).calls i).exit = none := by
  have hcalls : ∀ m, Supervised (trace.state m) := by
    intro m
    obtain ⟨events, hrun⟩ := trace.run (Nat.zero_le m)
    exact (supervised_reachable (hstart.extend hrun) (hbound m)).2
  have hset : (trace.state n).token.cancelled = true :=
    (hcalls n).flag (j := j) (by rw [hreturned]; rfl)
  have hlater : ∀ m, n ≤ m → ((trace.state m).cancels j = .returned delivered ∧
      (trace.state m).token.cancelled = true) ∧ ((trace.state m).calls i).phase.under :=
    fun m hnm => Trace.preserves
      (P := fun s : State => (s.cancels j = .returned delivered ∧ s.token.cancelled = true) ∧
        (s.calls i).phase.under)
      (fun s event t hs step => ⟨⟨step.returned hs.1.1, step.cancelled_mono hs.1.2⟩,
        step.under hs.1.2 hs.2⟩) ⟨⟨hreturned, hset⟩, hbegun, hreading⟩ hnm
  have hwaits : ∀ m, n ≤ m → (∃ result, ((trace.state m).calls i).phase = .ended result) ∨
      ((trace.state m).calls i).ready = true ∨
      (∃ id, ((trace.state m).calls i).phase = .waiting id) ∧
        ((trace.state m).calls i).killed = true ∧ ((trace.state m).calls i).exit = none := by
    intro m hnm
    obtain ⟨⟨hstill, -⟩, hunder⟩ := hlater m hnm
    refine (Call.ready_or_waiting hunder).imp_right (Or.imp_right ?_)
    rintro ⟨⟨id, hwaiting⟩, hexit⟩
    exact ⟨⟨id, hwaiting⟩, (hcalls m).killed_of_returned hstill hwaiting, hexit⟩
  constructor
  · refine Trace.eventually_of_rank
      (Q := fun s : State => ∃ result, (s.calls i).phase = .ended result)
      (fun s => (s.calls i).phase.rank) fun m hnm hnot => ?_
    rcases (hwaits m hnm).resolve_left hnot with hready | ⟨⟨id, hwaiting⟩, hkilled, -⟩
    · exact rank_falls_of_ready hfair hready (hlater m hnm).2
    · obtain ⟨k, hmk, hexit⟩ := hdies m hkilled
      have hrank : ((trace.state k).calls i).phase.rank ≤
          ((trace.state m).calls i).phase.rank :=
        Trace.preserves (P := fun s : State =>
          (s.calls i).phase.rank ≤ ((trace.state m).calls i).phase.rank)
          (fun s event t hs step => Nat.le_trans (step.rank_le i) hs) (Nat.le_refl _) hmk
      rcases Nat.lt_or_eq_of_le hrank with hlt | heq
      · exact ⟨k, hmk, hlt⟩
      · have hready : ((trace.state k).calls i).ready = true := by
          rw [hwaiting] at heq
          obtain ⟨other, hphase⟩ := Phase.waiting_of_rank heq
          rw [Call.ready, hphase]
          exact hexit
        obtain ⟨last, hkl, hlt⟩ :=
          rank_falls_of_ready hfair hready (hlater k (Nat.le_trans hnm hmk)).2
        exact ⟨last, Nat.le_trans hmk hkl, heq ▸ hlt⟩
  · intro m hnm
    exact (hwaits m hnm).imp_right (Or.imp exists_step_of_ready And.right)

end Fair

/-- The child of the interrupted call, once the kill has ended it. -/
def dead : Process := { exit := some ⟨-9⟩, killed := true }

def dying : State :=
  interrupted.setCall 0 interrupted.token ⟨.waiting 0, some dead⟩

def reaped : State :=
  dying.setCall 0 dying.token ⟨.waited 0 (some ⟨-9⟩), some dead⟩

def unregistered : State :=
  reaped.setCall 0 { reaped.token with children := reaped.token.children.erase 0 }
    ⟨.dropped (some ⟨-9⟩), some dead⟩

def discarded : State :=
  unregistered.setCall 0 unregistered.token ⟨.ended .cancelled, some dead⟩

/-- The interrupted call goes on, and then nothing happens any more. -/
def interruptedTrace : Trace Step where
  state
    | 0 => interrupted
    | 1 => dying
    | 2 => reaped
    | 3 => unregistered
    | _ => discarded
  event
    | 0 => some (.exit 0)
    | 1 => some (.call 0)
    | 2 => some (.call 0)
    | 3 => some (.call 0)
    | _ => none
  next n event hevent := by
    match n with
    | 0 =>
        obtain rfl := Option.some.inj hevent
        have hchild : (interrupted.calls 0).process = some { killed := true } := rfl
        have hstep : Step interrupted (.exit 0) dying := .exit hchild rfl ⟨-9⟩
        exact hstep
    | 1 =>
        obtain rfl := Option.some.inj hevent
        have hstep : Step dying (.call 0) reaped := .call (.wait rfl)
        exact hstep
    | 2 =>
        obtain rfl := Option.some.inj hevent
        have hstep : Step reaped (.call 0) unregistered := .call .drop
        exact hstep
    | 3 =>
        obtain rfl := Option.some.inj hevent
        have hstep : Step unregistered (.call 0) discarded := .call (.discard rfl)
        exact hstep
    | n + 4 => cases hevent
  idle n hevent := by
    match n with
    | 0 => cases hevent
    | 1 => cases hevent
    | 2 => cases hevent
    | 3 => cases hevent
    | n + 4 => rfl

theorem interruptedTrace_later (n : Nat) : interruptedTrace.state (n + 4) = discarded :=
  rfl

/-- The interrupted call ends. -/
theorem cancelled_calls_end_interrupted :
    (∃ m, 0 ≤ m ∧ ∃ result, ((interruptedTrace.state m).calls 0).phase = .ended result) ∧
      ∀ m, 0 ≤ m → (∃ result, ((interruptedTrace.state m).calls 0).phase = .ended result) ∨
        (∃ t, Step (interruptedTrace.state m) (.call 0) t) ∨
        ((interruptedTrace.state m).calls 0).killed = true ∧
          ((interruptedTrace.state m).calls 0).exit = none := by
  refine cancelled_calls_end (i := 0) (j := 0) interrupted_reachable (fun n => ?_)
    (fun n hready => ?_) (fun n _ => ?_) rfl (fun h => nomatch h) fun status h => nomatch h
  · match n with
    | 0 => decide
    | 1 => decide
    | 2 => decide
    | 3 => decide
    | n + 4 =>
        rw [interruptedTrace_later]
        decide
  · have hover := hready (n + 4) (Nat.le_add_right n 4)
    rw [interruptedTrace_later] at hover
    cases hover
  · refine ⟨n + 4, Nat.le_add_right n 4, ?_⟩
    rw [interruptedTrace_later]
    rfl

end BazelDiff.Cancel
