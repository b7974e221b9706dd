/-
# What a cancellation reaches

Once a cancellation has returned, every process that still runs was sent a kill, or its call has
yet to look at the flag, or waiting for it failed. A call whose process was sent a kill returns
no output. Both hold however calls and cancellations interleave, because a child is in the
registry before its call looks at the flag again, and the flag is set before the registry is
read. The numbers of the registry are told apart as long as the counter has not gone round.
-/

import BazelDiff.Cancel.Protocol
import Mathlib.Tactic.SplitIfs

namespace BazelDiff.Cancel

/-! ## One call -/

/-- How the process of a call ended. -/
def Call.exit (call : Call) : Option ExitStatus :=
  call.process.bind Process.exit

/-- The process of a call was sent a kill. -/
def Call.killed (call : Call) : Bool :=
  call.process.any Process.killed

namespace Phase

/-- The number a call holds. -/
def number : Phase → Option Nat
  | .numbered id => some id
  | .registered id => some id
  | .killing id => some id
  | .waiting id => some id
  | .waited id _ => some id
  | _ => none

/-- The number a call's child is registered under. -/
def registration : Phase → Option Nat
  | .numbered _ => none
  | phase => phase.number

/-- The call has yet to look at the flag, or to act on it. -/
def willCheck : Phase → Bool
  | .spawned => true
  | .numbered _ => true
  | .registered _ => true
  | .killing _ => true
  | _ => false

/-- Waiting for the call's child failed. -/
def waitFailed : Phase → Bool
  | .waited _ none => true
  | .dropped none => true
  | .ended .waitFailed => true
  | _ => false

/-- The status of the output a call is going to return, or has returned. -/
def returning : Phase → Option ExitStatus
  | .reading status => some status
  | .ended (.output status) => some status
  | _ => none

theorem number_of_registration {phase : Phase} {id : Nat} (h : phase.registration = some id) :
    phase.number = some id := by
  cases phase with
  | numbered id => cases h
  | _ => exact h

/-- A call that is going to return output has dropped its registration. -/
theorem registration_of_returning {phase : Phase} {status : ExitStatus}
    (h : phase.returning = some status) : phase.registration = none := by
  cases phase with
  | reading status => rfl
  | ended result => rfl
  | _ => cases h

end Phase

namespace CancelPhase

/-- The flag has been set. -/
def stored : CancelPhase → Bool
  | .listing => true
  | .killing _ _ => true
  | .returned _ => true
  | _ => false

/-- The registry has been read. -/
def listed : CancelPhase → Bool
  | .killing _ _ => true
  | .returned _ => true
  | _ => false

/-- The calls whose children are left to kill. -/
def left : CancelPhase → List Nat
  | .killing children _ => children
  | _ => []

theorem stored_of_listed {phase : CancelPhase} (h : phase.listed = true) :
    phase.stored = true := by
  cases phase with
  | killing children delivered => rfl
  | returned delivered => rfl
  | _ => cases h

end CancelPhase

/-- What a call's phase says about its process. -/
def Call.Fits (call : Call) : Prop :=
  match call.phase with
  | .idle | .checking | .spawning | .ended .spawnFailed => call.process = none
  | .waited _ (some status) | .dropped (some status) | .reading status | .ended (.output status) =>
      call.exit = some status
  | .ended .readFailed => call.exit.isSome = true
  | .ended .cancelled => call.process = none ∨ call.exit.isSome = true
  | _ => call.process.isSome = true

namespace CallStep

variable {me : Nat} {token token' : Cancellation} {call call' : Call}

/-- What a step does to the shared state: nothing, or the counter is taken, or the child is
registered, or the registration is dropped. -/
theorem books (step : CallStep me token call token' call') :
    token' = token ∧ call'.phase.number = call.phase.number ∧
        call'.phase.registration = call.phase.registration ∨
      token' = { token with nextId := token.nextId + 1 } ∧ call.phase = .spawned ∧
        call'.phase = .numbered token.freshId ∨
      (∃ id, token' = { token with children := token.children.insert id me } ∧
        call.phase = .numbered id ∧ call'.phase = .registered id) ∨
      ∃ id status, token' = { token with children := token.children.erase id } ∧
        call.phase = .waited id status ∧ call'.phase = .dropped status := by
  cases step with
  | number => exact Or.inr (Or.inl ⟨rfl, rfl, rfl⟩)
  | register => exact Or.inr (Or.inr (Or.inl ⟨_, rfl, rfl, rfl⟩))
  | drop => exact Or.inr (Or.inr (Or.inr ⟨_, _, rfl, rfl, rfl⟩))
  | _ => exact Or.inl ⟨rfl, rfl, rfl⟩

theorem cancelled_eq (step : CallStep me token call token' call') :
    token'.cancelled = token.cancelled := by
  cases step <;> rfl

theorem fits (step : CallStep me token call token' call') (h : call.Fits) : call'.Fits := by
  cases step with
  | refuse => exact Or.inl h
  | spawn => rfl
  | kill => exact Option.isSome_map.trans h
  | wait hexit => exact hexit
  | drop =>
      rename_i status
      cases status <;> exact h
  | discard => exact Or.inr (Option.isSome_of_mem h)
  | readFails => exact Option.isSome_of_mem h
  | _ => exact h

/-- A call that goes on to wait has seen no cancellation, or has killed its child. -/
theorem waiting (step : CallStep me token call token' call') (hfits : call.Fits) {id : Nat}
    (hphase : call'.phase = .waiting id) : token.cancelled = false ∨ call'.killed = true := by
  cases step with
  | proceed h => exact Or.inl h
  | kill =>
      rename_i process id
      obtain ⟨process, rfl⟩ := Option.isSome_iff_exists.mp hfits
      exact Or.inr rfl
  | _ => cases hphase

/-- A call that goes on to return output has seen no cancellation after its child exited. -/
theorem returning (step : CallStep me token call token' call') {status : ExitStatus}
    (hphase : call'.phase.returning = some status) :
    call'.process = call.process ∧
      (call.phase = .dropped (some status) ∧ token.cancelled = false ∨
        call.phase.returning = some status) := by
  cases step with
  | keep h => exact ⟨rfl, Or.inl ⟨by rw [Option.some.inj hphase], h⟩⟩
  | join => exact ⟨rfl, Or.inr hphase⟩
  | _ => cases hphase

/-- A call kills its child only once it has seen the flag. -/
theorem killed (step : CallStep me token call token' call') (hkilled : call'.killed = true) :
    call.killed = true ∨ ∃ id, call.phase = .killing id := by
  cases step with
  | spawn => cases hkilled
  | kill => exact Or.inr ⟨_, rfl⟩
  | _ => exact Or.inl hkilled

theorem killing (step : CallStep me token call token' call') {id : Nat}
    (hphase : call'.phase = .killing id) : token.cancelled = true := by
  cases step with
  | notice h => exact h
  | _ => cases hphase

end CallStep

/-! ## One step of all -/

/-- The process of a call may have gone on, and may have been sent a kill. -/
structure Call.Ages (old new : Call) : Prop where
  phase : new.phase = old.phase
  process : new.process.isSome = old.process.isSome
  exit : ∀ {status : ExitStatus}, old.exit = some status → new.exit = some status
  killed : old.killed = true → new.killed = true

namespace Call

theorem Ages.refl (call : Call) : Ages call call :=
  ⟨rfl, rfl, id, id⟩

theorem ages_kill (call : Call) : Ages call call.kill := by
  obtain ⟨phase, process⟩ := call
  cases process with
  | none => exact Ages.refl _
  | some process => exact ⟨rfl, rfl, id, fun _ => rfl⟩

theorem killed_kill {call : Call} (h : call.process.isSome = true) : call.kill.killed = true := by
  obtain ⟨process, hprocess⟩ := Option.isSome_iff_exists.mp h
  rw [killed, kill, hprocess]
  rfl

theorem Ages.fits {old new : Call} (h : Ages old new) (hfits : old.Fits) : new.Fits := by
  have hnone : old.process = none → new.process = none := fun hold => by
    have hsome := h.process
    rw [hold] at hsome
    exact Option.not_isSome_iff_eq_none.mp (by simp [hsome])
  have hexits : old.exit.isSome = true → new.exit.isSome = true := fun hold => by
    obtain ⟨status, hstatus⟩ := Option.isSome_iff_exists.mp hold
    exact Option.isSome_of_mem (h.exit hstatus)
  obtain ⟨phase, process⟩ := old
  obtain ⟨phase', process'⟩ := new
  obtain rfl : phase' = phase := h.phase
  rw [Fits] at hfits ⊢
  dsimp only at hfits ⊢
  split at hfits <;> first
    | exact hnone hfits
    | exact h.exit hfits
    | exact hexits hfits
    | exact hfits.imp hnone hexits
    | exact h.process.trans hfits

end Call

theorem phase_setCall {s : State} {j : Nat} (token : Cancellation) {call : Call}
    (h : call.phase = (s.calls j).phase) (i : Nat) :
    ((s.setCall j token call).calls i).phase = (s.calls i).phase := by
  by_cases hij : i = j
  · subst hij
    rw [calls_setCall_self, h]
  · rw [calls_setCall_of_ne s hij]

/-- A call takes one step of its own, or its process goes on, or nothing happens to it. -/
theorem Step.call_cases {s t : State} {event : Event} (step : Step s event t) (i : Nat) :
    (event = .call i ∧ CallStep i s.token (s.calls i) t.token (t.calls i)) ∨
      Call.Ages (s.calls i) (t.calls i) := by
  cases step with
  | call h =>
      rename_i j token call
      by_cases hij : i = j
      · subst hij
        rw [calls_setCall_self]
        exact Or.inl ⟨rfl, h⟩
      · rw [calls_setCall_of_ne s hij]
        exact Or.inr (Call.Ages.refl _)
  | kill h isOk =>
      rename_i j child children delivered
      change _ ∨ Call.Ages (s.calls i) ((s.setCall child s.token (s.calls child).kill).calls i)
      by_cases hij : i = child
      · subst hij
        rw [calls_setCall_self]
        exact Or.inr (Call.ages_kill _)
      · rw [calls_setCall_of_ne s hij]
        exact Or.inr (Call.Ages.refl _)
  | exit h hrunning status =>
      rename_i j process
      by_cases hij : i = j
      · subst hij
        rw [calls_setCall_self]
        refine Or.inr ⟨rfl, by rw [h]; rfl, fun hexit => ?_, fun hkilled => ?_⟩
        · rw [Call.exit, h, Option.bind_some, hrunning] at hexit
          cases hexit
        · rw [Call.killed, h] at hkilled
          exact hkilled
      · rw [calls_setCall_of_ne s hij]
        exact Or.inr (Call.Ages.refl _)
  | close h =>
      rename_i j process
      by_cases hij : i = j
      · subst hij
        rw [calls_setCall_self]
        refine Or.inr ⟨rfl, by rw [h]; rfl, fun hexit => ?_, fun hkilled => ?_⟩
        · rw [Call.exit, h] at hexit
          exact hexit
        · rw [Call.killed, h] at hkilled
          exact hkilled
      · rw [calls_setCall_of_ne s hij]
        exact Or.inr (Call.Ages.refl _)
  | _ => exact Or.inr (Call.Ages.refl _)

/-- A step is one of a call, or leaves the books and the phases of the calls as they are. -/
theorem Step.books {s t : State} {event : Event} (step : Step s event t) :
    (∃ i token call, CallStep i s.token (s.calls i) token call ∧ t = s.setCall i token call) ∨
      t.token.nextId = s.token.nextId ∧ t.token.children = s.token.children ∧
        ∀ i, (t.calls i).phase = (s.calls i).phase := by
  cases step with
  | call h => exact Or.inl ⟨_, _, _, h, rfl⟩
  | poll hcall hrunning => exact Or.inr ⟨rfl, rfl, fun _ => rfl⟩
  | start h => exact Or.inr ⟨rfl, rfl, fun _ => rfl⟩
  | store h => exact Or.inr ⟨rfl, rfl, fun _ => rfl⟩
  | list h hlisted => exact Or.inr ⟨rfl, rfl, fun _ => rfl⟩
  | finish h => exact Or.inr ⟨rfl, rfl, fun _ => rfl⟩
  | kill h isOk =>
      refine Or.inr ⟨rfl, rfl, phase_setCall s.token ?_⟩
      rfl
  | exit h hrunning status =>
      refine Or.inr ⟨rfl, rfl, phase_setCall s.token ?_⟩
      rfl
  | close h =>
      refine Or.inr ⟨rfl, rfl, phase_setCall s.token ?_⟩
      rfl

/-! ## The registry -/

/-- The registry holds the calls that are registered, each under its own number. -/
structure Registered (s : State) : Prop where
  numbers : ∀ {i id : Nat}, (s.calls i).phase.number = some id → id < s.token.nextId
  apart : ∀ {i j id : Nat}, (s.calls i).phase.number = some id →
    (s.calls j).phase.number = some id → i = j
  registry : ∀ id i, s.token.children[id]? = some i ↔ (s.calls i).phase.registration = some id

theorem registered_initial : Registered State.initial where
  numbers h := nomatch h
  apart h := nomatch h
  registry id i := by
    constructor
    · intro h
      change (∅ : Std.ExtTreeMap Nat Nat)[id]? = some i at h
      rw [Std.ExtTreeMap.getElem?_empty] at h
      cases h
    · intro h
      cases h

/-- A call that changes neither the books nor its own entries there keeps the registry. -/
theorem Registered.of_same {s t : State} (hs : Registered s)
    (hnext : s.token.nextId ≤ t.token.nextId) (hchildren : t.token.children = s.token.children)
    (hnumber : ∀ i, (t.calls i).phase.number = (s.calls i).phase.number)
    (hregistration : ∀ i, (t.calls i).phase.registration = (s.calls i).phase.registration) :
    Registered t := by
  refine ⟨fun {i id} h => ?_, fun {i j id} hi hj => ?_, fun id i => ?_⟩
  · rw [hnumber] at h
    exact Nat.lt_of_lt_of_le (hs.numbers h) hnext
  · rw [hnumber] at hi hj
    exact hs.apart hi hj
  · rw [hregistration, hchildren]
    exact hs.registry id i

theorem of_setCall {s : State} {me : Nat} {token : Cancellation} {call : Call} {α : Type}
    {f : Call → α} (h : f call = f (s.calls me)) (i : Nat) :
    f ((s.setCall me token call).calls i) = f (s.calls i) := by
  by_cases hi : i = me
  · subst hi
    rw [calls_setCall_self, h]
  · rw [calls_setCall_of_ne s hi]

/-- A step of a call keeps the registry. -/
theorem Registered.call {s : State} (hs : Registered s) {me : Nat} {token : Cancellation}
    {call : Call} (hcall : CallStep me s.token (s.calls me) token call)
    (hbound : token.nextId ≤ 2 ^ 64) : Registered (s.setCall me token call) := by
  rcases hcall.books with ⟨rfl, hnumber, hregistration⟩ | ⟨rfl, hspawned, hnumbered⟩ |
    ⟨id, rfl, hnumbered, hregistered⟩ | ⟨id, status, rfl, hwaited, hdropped⟩
  · refine hs.of_same (Nat.le_refl _) rfl (fun i => ?_) fun i => ?_
    · exact of_setCall (f := fun call => call.phase.number) hnumber i
    · exact of_setCall (f := fun call => call.phase.registration) hregistration i
  · -- The number is one no call holds, because the counter has not gone round.
    change s.token.nextId + 1 ≤ 2 ^ 64 at hbound
    have hfresh : s.token.freshId = s.token.nextId := Nat.mod_eq_of_lt (by omega)
    have hnumber : ∀ {i id : Nat},
        ((s.setCall me { s.token with nextId := s.token.nextId + 1 } call).calls i).phase.number =
          some id → i = me ∧ id = s.token.nextId ∨ i ≠ me ∧ (s.calls i).phase.number = some id := by
      intro i id h
      by_cases hi : i = me
      · subst hi
        rw [calls_setCall_self, hnumbered, hfresh] at h
        exact Or.inl ⟨rfl, (Option.some.inj h).symm⟩
      · rw [calls_setCall_of_ne s hi] at h
        exact Or.inr ⟨hi, h⟩
    refine ⟨fun {i id} h => ?_, fun {i j id} hi hj => ?_, fun id i => ?_⟩
    · change id < s.token.nextId + 1
      rcases hnumber h with ⟨-, rfl⟩ | ⟨-, h⟩
      · exact Nat.lt_succ_self _
      · exact Nat.lt_succ_of_lt (hs.numbers h)
    · rcases hnumber hi with ⟨himine, hifresh⟩ | ⟨-, hiold⟩ <;>
        rcases hnumber hj with ⟨hjmine, hjfresh⟩ | ⟨-, hjold⟩
      · rw [himine, hjmine]
      · exact absurd (hs.numbers hjold) (by omega)
      · exact absurd (hs.numbers hiold) (by omega)
      · exact hs.apart hiold hjold
    · rw [of_setCall (f := fun call => call.phase.registration) (by rw [hnumbered, hspawned]; rfl)]
      exact hs.registry id i
  · have hnumber : ∀ i, ((s.setCall me { s.token with
        children := s.token.children.insert id me } call).calls i).phase.number =
          (s.calls i).phase.number :=
      of_setCall (f := fun call => call.phase.number) (by rw [hregistered, hnumbered]; rfl)
    have hme : (s.calls me).phase.number = some id := by
      rw [hnumbered]
      rfl
    refine ⟨fun {i other} h => ?_, fun {i j other} hi hj => ?_, fun other i => ?_⟩
    · rw [hnumber] at h
      exact hs.numbers h
    · rw [hnumber] at hi hj
      exact hs.apart hi hj
    · change (s.token.children.insert id me)[other]? = some i ↔ _
      rw [Std.ExtTreeMap.getElem?_insert]
      by_cases hi : i = me
      · subst hi
        rw [calls_setCall_self, hregistered]
        change _ ↔ some id = some other
        rw [Option.some.injEq]
        split_ifs with hid
        · exact iff_of_true rfl (Std.compare_eq_iff_eq.mp hid)
        · rw [hs.registry other i, hnumbered]
          exact iff_of_false (fun h => nomatch h) fun h => hid (Std.compare_eq_iff_eq.mpr h)
      · rw [calls_setCall_of_ne s hi]
        split_ifs with hid
        · obtain rfl := Std.compare_eq_iff_eq.mp hid
          refine iff_of_false (fun h => hi (Option.some.inj h).symm) fun h => hi ?_
          exact hs.apart (Phase.number_of_registration h) hme
        · exact hs.registry other i
  · have hnumber : ∀ {i other : Nat}, ((s.setCall me { s.token with
        children := s.token.children.erase id } call).calls i).phase.number = some other →
          (s.calls i).phase.number = some other := by
      intro i other h
      by_cases hi : i = me
      · subst hi
        rw [calls_setCall_self, hdropped] at h
        cases h
      · rw [calls_setCall_of_ne s hi] at h
        exact h
    have hme : (s.calls me).phase.number = some id := by
      rw [hwaited]
      rfl
    refine ⟨fun {i other} h => hs.numbers (hnumber h), fun {i j other} hi hj =>
      hs.apart (hnumber hi) (hnumber hj), fun other i => ?_⟩
    change (s.token.children.erase id)[other]? = some i ↔ _
    rw [Std.ExtTreeMap.getElem?_erase]
    by_cases hi : i = me
    · subst hi
      rw [calls_setCall_self, hdropped]
      refine iff_of_false ?_ fun h => nomatch h
      split_ifs with hid
      · exact fun h => nomatch h
      · rw [hs.registry other i, hwaited]
        exact fun h => hid (Std.compare_eq_iff_eq.mpr (Option.some.inj h))
    · rw [calls_setCall_of_ne s hi]
      split_ifs with hid
      · obtain rfl := Std.compare_eq_iff_eq.mp hid
        refine iff_of_false (fun h => nomatch h) fun h => hi ?_
        exact hs.apart (Phase.number_of_registration h) hme
      · exact hs.registry other i

theorem Registered.step {s t : State} {event : Event} (hs : Registered s)
    (step : Step s event t) (hbound : t.token.nextId ≤ 2 ^ 64) : Registered t := by
  rcases step.books with ⟨me, token, call, hcall, rfl⟩ | ⟨hnext, hchildren, hphase⟩
  · exact hs.call hcall hbound
  · refine ⟨fun {i id} h => ?_, fun {i j id} hi hj => ?_, fun id i => ?_⟩
    · rw [hphase] at h
      rw [hnext]
      exact hs.numbers h
    · rw [hphase] at hi hj
      exact hs.apart hi hj
    · rw [hphase, hchildren]
      exact hs.registry id i

/-! ## What a cancellation has in hand -/

/-- Cancellations set the flag before they read the registry, and calls act on it. -/
structure Supervised (s : State) : Prop where
  fits : ∀ i, (s.calls i).Fits
  flag : ∀ {j : Nat}, (s.cancels j).stored = true → s.token.cancelled = true
  noticed : ∀ {i id : Nat}, (s.calls i).phase = .killing id → s.token.cancelled = true
  killed : ∀ {i : Nat}, (s.calls i).killed = true → s.token.cancelled = true
  /-- A child that is waited for has been killed, or is going to be. -/
  aware : ∀ {i id j : Nat}, (s.calls i).phase = .waiting id → (s.cancels j).listed = true →
    (s.calls i).killed = true ∨ i ∈ (s.cancels j).left
  /-- A call that returns output has a child that no one killed, or is going to. -/
  uncut : ∀ {i : Nat} {status : ExitStatus}, (s.calls i).phase.returning = some status →
    (s.calls i).killed = false ∧ ∀ j, i ∉ (s.cancels j).left

theorem supervised_initial : Supervised State.initial where
  fits _ := rfl
  flag h := nomatch h
  noticed h := nomatch h
  killed h := nomatch h
  aware h := nomatch h
  uncut h := nomatch h

namespace Step

variable {s t : State} {event : Event}

theorem cancelled_mono (step : Step s event t) (h : s.token.cancelled = true) :
    t.token.cancelled = true := by
  cases step with
  | call hcall => exact hcall.cancelled_eq.trans h
  | store hphase => rfl
  | _ => exact h

/-- A cancellation stays where it is, or takes its next step. -/
theorem cancel_cases (step : Step s event t) (j : Nat) :
    t.cancels j = s.cancels j ∨
      (s.cancels j = .idle ∧ t.cancels j = .storing) ∨
      (s.cancels j = .storing ∧ t.cancels j = .listing ∧ t.token.cancelled = true) ∨
      (s.cancels j = .listing ∧ ∃ children, t.cancels j = .killing children 0 ∧
        children.Perm (s.token.children.toList.map Prod.snd)) ∨
      (∃ child children delivered delivered', s.cancels j = .killing (child :: children) delivered ∧
        t.cancels j = .killing children delivered' ∧ t.calls child = (s.calls child).kill) ∨
      ∃ delivered, s.cancels j = .killing [] delivered ∧ t.cancels j = .returned delivered := by
  cases step with
  | start h =>
      rename_i other
      by_cases hj : j = other
      · subst hj
        exact Or.inr (Or.inl ⟨h, cancels_setCancel_self _ _ _⟩)
      · exact Or.inl (cancels_setCancel_of_ne s hj _)
  | store h =>
      rename_i other
      by_cases hj : j = other
      · subst hj
        exact Or.inr (Or.inr (Or.inl ⟨h, cancels_setCancel_self _ _ _, rfl⟩))
      · exact Or.inl (cancels_setCancel_of_ne s hj _)
  | list h hlisted =>
      rename_i other children
      by_cases hj : j = other
      · subst hj
        exact Or.inr (Or.inr (Or.inr (Or.inl ⟨h, _, cancels_setCancel_self _ _ _, hlisted⟩)))
      · exact Or.inl (cancels_setCancel_of_ne s hj _)
  | kill h isOk =>
      rename_i other child children delivered
      by_cases hj : j = other
      · subst hj
        refine Or.inr (Or.inr (Or.inr (Or.inr (Or.inl
          ⟨child, children, delivered, _, h, cancels_setCancel_self _ _ _, ?_⟩))))
        exact calls_setCall_self s child s.token _
      · exact Or.inl (cancels_setCancel_of_ne _ hj _)
  | finish h =>
      rename_i other delivered
      by_cases hj : j = other
      · subst hj
        exact Or.inr (Or.inr (Or.inr (Or.inr (Or.inr
          ⟨delivered, h, cancels_setCancel_self _ _ _⟩))))
      · exact Or.inl (cancels_setCancel_of_ne s hj _)
  | _ => exact Or.inl rfl

/-- A cancellation that has set the flag is one that had, or sets it now. -/
theorem stored (step : Step s event t) {j : Nat} (h : (t.cancels j).stored = true) :
    (s.cancels j).stored = true ∨ t.token.cancelled = true := by
  rcases step.cancel_cases j with hsame | ⟨-, hnext⟩ | ⟨-, -, hflag⟩ | ⟨hphase, -⟩ |
    ⟨child, children, delivered, -, hphase, -⟩ | ⟨delivered, hphase, -⟩
  · exact Or.inl (hsame ▸ h)
  · rw [hnext] at h
    cases h
  · exact Or.inr hflag
  · exact Or.inl (by rw [hphase]; rfl)
  · exact Or.inl (by rw [hphase]; rfl)
  · exact Or.inl (by rw [hphase]; rfl)

/-- A cancellation that has read the registry had set the flag before. -/
theorem stored_of_listed (step : Step s event t) {j : Nat} (h : (t.cancels j).listed = true) :
    (s.cancels j).stored = true := by
  rcases step.cancel_cases j with hsame | ⟨-, hnext⟩ | ⟨-, hnext, -⟩ | ⟨hphase, -⟩ |
    ⟨child, children, delivered, -, hphase, -⟩ | ⟨delivered, hphase, -⟩
  · exact CancelPhase.stored_of_listed (hsame ▸ h)
  · rw [hnext] at h
    cases h
  · rw [hnext] at h
    cases h
  · rw [hphase]
    rfl
  · rw [hphase]
    rfl
  · rw [hphase]
    rfl

/-- What a cancellation has left to kill it had left before, or has just read. -/
theorem left (step : Step s event t) {i j : Nat} (h : i ∈ (t.cancels j).left) :
    i ∈ (s.cancels j).left ∨
      (s.cancels j).stored = true ∧ ∃ id : Nat, s.token.children[id]? = some i := by
  rcases step.cancel_cases j with hsame | ⟨-, hnext⟩ | ⟨-, hnext, -⟩ |
    ⟨hphase, children, hnext, hlisted⟩ |
    ⟨child, children, delivered, delivered', hphase, hnext, -⟩ | ⟨delivered, -, hnext⟩
  · exact Or.inl (hsame ▸ h)
  · rw [hnext] at h
    cases h
  · rw [hnext] at h
    cases h
  · rw [hnext] at h
    obtain ⟨⟨id, call⟩, hmem, rfl⟩ := List.mem_map.mp (hlisted.mem_iff.mp h)
    exact Or.inr ⟨by rw [hphase]; rfl, id,
      Std.ExtTreeMap.mem_toList_iff_getElem?_eq_some.mp hmem⟩
  · rw [hnext] at h
    rw [hphase]
    exact Or.inl (List.mem_cons_of_mem child h)
  · rw [hnext] at h
    cases h

/-- A child is killed by its call, which has seen the flag, or by a cancellation. -/
theorem killed (step : Step s event t) {i : Nat} (h : (t.calls i).killed = true) :
    (s.calls i).killed = true ∨ (∃ id, (s.calls i).phase = .killing id) ∨
      ∃ j, i ∈ (s.cancels j).left := by
  cases step with
  | call hcall =>
      rename_i j token call
      by_cases hij : i = j
      · subst hij
        rw [calls_setCall_self] at h
        exact (hcall.killed h).imp_right Or.inl
      · rw [calls_setCall_of_ne s hij] at h
        exact Or.inl h
  | kill hphase isOk =>
      rename_i j child children delivered
      by_cases hij : i = child
      · exact Or.inr (Or.inr ⟨j, by rw [hphase, hij]; exact List.mem_cons_self⟩)
      · change ((s.setCall child s.token (s.calls child).kill).calls i).killed = true at h
        rw [calls_setCall_of_ne s hij] at h
        exact Or.inl h
  | exit hprocess hrunning status =>
      rename_i j process
      by_cases hij : i = j
      · subst hij
        rw [calls_setCall_self] at h
        exact Or.inl (by rw [Call.killed, hprocess]; exact h)
      · rw [calls_setCall_of_ne s hij] at h
        exact Or.inl h
  | close hprocess =>
      rename_i j process
      by_cases hij : i = j
      · subst hij
        rw [calls_setCall_self] at h
        exact Or.inl (by rw [Call.killed, hprocess]; exact h)
      · rw [calls_setCall_of_ne s hij] at h
        exact Or.inl h
  | _ => exact Or.inl h

end Step

theorem CancelPhase.stored_of_left {phase : CancelPhase} {i : Nat} (h : i ∈ phase.left) :
    phase.stored = true := by
  cases phase with
  | killing children delivered => rfl
  | _ => cases h

namespace Supervised

variable {s t : State} {event : Event}

/-- Children that are waited for stay in view of every cancellation that has read the registry. -/
theorem aware_step (hs : Supervised s) (hbooks : Registered s) (step : Step s event t)
    {i id j : Nat} (hphase : (t.calls i).phase = .waiting id)
    (hlisted : (t.cancels j).listed = true) :
    (t.calls i).killed = true ∨ i ∈ (t.cancels j).left := by
  have hflag := hs.flag (step.stored_of_listed hlisted)
  rcases step.call_cases i with ⟨-, hcall⟩ | hages
  · -- The call has just gone on to wait, in sight of the flag.
    rcases hcall.waiting (hs.fits i) hphase with hclear | hkilled
    · rw [hflag] at hclear
      cases hclear
    · exact Or.inl hkilled
  · have hwaiting : (s.calls i).phase = .waiting id := hages.phase.symm.trans hphase
    rcases step.cancel_cases j with hsame | ⟨-, hnext⟩ | ⟨-, hnext, -⟩ |
      ⟨-, children, hnext, hperm⟩ |
      ⟨child, children, delivered, delivered', hbefore, hnext, hkill⟩ | ⟨delivered, hbefore, hnext⟩
    · rw [hsame] at hlisted ⊢
      exact (hs.aware hwaiting hlisted).imp_left hages.killed
    · rw [hnext] at hlisted
      cases hlisted
    · rw [hnext] at hlisted
      cases hlisted
    · have hentry : s.token.children[id]? = some i :=
        (hbooks.registry id i).mpr (by rw [hwaiting]; rfl)
      rw [hnext]
      refine Or.inr (hperm.mem_iff.mpr (List.mem_map.mpr ⟨(id, i), ?_, rfl⟩))
      exact Std.ExtTreeMap.mem_toList_iff_getElem?_eq_some.mpr hentry
    · have hknown := hs.aware hwaiting (j := j) (by rw [hbefore]; rfl)
      rw [hbefore] at hknown
      rw [hnext]
      rcases hknown with hkilled | hleft
      · exact Or.inl (hages.killed hkilled)
      · rcases List.mem_cons.mp hleft with rfl | hleft
        · have hprocess : (s.calls i).process.isSome = true := by
            have hfits := hs.fits i
            rw [Call.Fits, hwaiting] at hfits
            exact hfits
          rw [hkill]
          exact Or.inl (Call.killed_kill hprocess)
        · exact Or.inr hleft
    · have hknown := hs.aware hwaiting (j := j) (by rw [hbefore]; rfl)
      rw [hbefore] at hknown
      exact Or.inl (hages.killed (hknown.resolve_right List.not_mem_nil))

/-- Children whose output is going to be returned stay out of sight of every cancellation. -/
theorem uncut_step (hs : Supervised s) (hbooks : Registered s) (step : Step s event t)
    {i : Nat} {status : ExitStatus} (hphase : (t.calls i).phase.returning = some status) :
    (t.calls i).killed = false ∧ ∀ j, i ∉ (t.cancels j).left := by
  have hbefore : (s.calls i).killed = false ∧ (∀ j, i ∉ (s.cancels j).left) ∧
      (∀ id, (s.calls i).phase ≠ .killing id) ∧
      ∀ j, (s.cancels j).stored = true → ∀ id : Nat, s.token.children[id]? ≠ some i := by
    have hreturning : (s.calls i).phase.returning = some status →
        (s.calls i).killed = false ∧ (∀ j, i ∉ (s.cancels j).left) ∧
          (∀ id, (s.calls i).phase ≠ .killing id) ∧
          ∀ j, (s.cancels j).stored = true → ∀ id : Nat, s.token.children[id]? ≠ some i := by
      intro hphase
      obtain ⟨hkilled, hleft⟩ := hs.uncut hphase
      refine ⟨hkilled, hleft, fun id hkilling => ?_, fun j _ id hentry => ?_⟩
      · rw [hkilling] at hphase
        cases hphase
      · have hregistration := (hbooks.registry id i).mp hentry
        rw [Phase.registration_of_returning hphase] at hregistration
        cases hregistration
    rcases step.call_cases i with ⟨-, hcall⟩ | hages
    · obtain ⟨-, ⟨hdropped, hclear⟩ | hphase⟩ := hcall.returning hphase
      · have hunset : ∀ j, (s.cancels j).stored ≠ true := fun j hstored => by
          rw [hs.flag hstored] at hclear
          cases hclear
        refine ⟨?_, fun j hleft => hunset j (CancelPhase.stored_of_left hleft), fun id hkilling => ?_,
          fun j hstored => absurd hstored (hunset j)⟩
        · rw [← Bool.not_eq_true]
          intro hkilled
          rw [hs.killed hkilled] at hclear
          cases hclear
        · rw [hdropped] at hkilling
          cases hkilling
      · exact hreturning hphase
    · exact hreturning (hages.phase ▸ hphase)
  obtain ⟨hkilled, hleft, hkilling, hentry⟩ := hbefore
  constructor
  · rw [← Bool.not_eq_true]
    intro hnow
    rcases step.killed hnow with hold | ⟨id, hself⟩ | ⟨j, hmem⟩
    · rw [hkilled] at hold
      cases hold
    · exact hkilling id hself
    · exact hleft j hmem
  · intro j hmem
    rcases step.left hmem with hold | ⟨hstored, id, hlisted⟩
    · exact hleft j hold
    · exact hentry j hstored id hlisted

/-- A step keeps the calls in view of the cancellations. -/
theorem step (hs : Supervised s) (hbooks : Registered s) (step : Step s event t) :
    Supervised t where
  fits i := by
    rcases step.call_cases i with ⟨-, hcall⟩ | hages
    · exact hcall.fits (hs.fits i)
    · exact hages.fits (hs.fits i)
  flag hstored := by
    rcases step.stored hstored with hold | hflag
    · exact step.cancelled_mono (hs.flag hold)
    · exact hflag
  noticed {i id} hphase := by
    apply step.cancelled_mono
    rcases step.call_cases i with ⟨-, hcall⟩ | hages
    · exact hcall.killing hphase
    · exact hs.noticed (hages.phase.symm.trans hphase)
  killed hkilled := by
    apply step.cancelled_mono
    rcases step.killed hkilled with hold | ⟨id, hself⟩ | ⟨j, hleft⟩
    · exact hs.killed hold
    · exact hs.noticed hself
    · exact hs.flag (CancelPhase.stored_of_left hleft)
  aware hphase hlisted := hs.aware_step hbooks step hphase hlisted
  uncut hphase := hs.uncut_step hbooks step hphase

end Supervised

/-! ## Every run -/

theorem Step.nextId_le {s t : State} {event : Event} (step : Step s event t) :
    s.token.nextId ≤ t.token.nextId := by
  rcases step.books with ⟨i, token, call, hcall, rfl⟩ | ⟨hnext, -⟩
  · change s.token.nextId ≤ token.nextId
    rcases hcall.books with ⟨rfl, -⟩ | ⟨rfl, -⟩ | ⟨id, rfl, -⟩ | ⟨id, status, rfl, -⟩
    · exact Nat.le_refl _
    · exact Nat.le_succ _
    · exact Nat.le_refl _
    · exact Nat.le_refl _
  · exact Nat.le_of_eq hnext.symm

theorem nextId_le_of_run {s t : State} {events : List Event} (run : Run Step s events t) :
    s.token.nextId ≤ t.token.nextId :=
  run.preserves (P := fun t => s.token.nextId ≤ t.token.nextId)
    (fun _ _ _ hs step => Nat.le_trans hs step.nextId_le) (Nat.le_refl _)

/-- What holds in every state a run reaches before the counter goes round. -/
theorem supervised_reachable {s : State} (h : Reachable Step State.initial s)
    (hbound : s.token.nextId ≤ 2 ^ 64) : Registered s ∧ Supervised s := by
  have hinvariant : s.token.nextId ≤ 2 ^ 64 → Registered s ∧ Supervised s := by
    refine h.invariant (P := fun s => s.token.nextId ≤ 2 ^ 64 → Registered s ∧ Supervised s)
      (fun _ => ⟨registered_initial, supervised_initial⟩) ?_
    intro s event t hs step hbound
    obtain ⟨hbooks, hcalls⟩ := hs (Nat.le_trans step.nextId_le hbound)
    exact ⟨hbooks.step step hbound, hcalls.step hbooks step⟩
  exact hinvariant hbound

/-- **A cancellation that has returned leaves no process behind: whatever still runs was sent a
kill, or belongs to a call that is yet to act on the flag, or to one whose wait failed. The
registry holds the calls from their registration to the end of their wait, and no others.** -/
theorem cancel_leaves_none {s : State} (h : Reachable Step State.initial s)
    (hbound : s.token.nextId ≤ 2 ^ 64) :
    (∀ id i, s.token.children[id]? = some i ↔ (s.calls i).phase.registration = some id) ∧
    ∀ j delivered, s.cancels j = .returned delivered → s.token.cancelled = true ∧
      ∀ i process, (s.calls i).process = some process → process.exit = none →
        process.killed = true ∨ (s.calls i).phase.willCheck = true ∨
          (s.calls i).phase.waitFailed = true := by
  obtain ⟨hbooks, hcalls⟩ := supervised_reachable h hbound
  refine ⟨hbooks.registry, fun j delivered hreturned => ⟨hcalls.flag (j := j) ?_, ?_⟩⟩
  · rw [hreturned]
    rfl
  · intro i process hprocess hrunning
    have hfits := hcalls.fits i
    have hexit : (s.calls i).exit = none := by rw [Call.exit, hprocess]; exact hrunning
    rw [Call.Fits, hexit, hprocess] at hfits
    cases hphase : (s.calls i).phase with
    | waiting id =>
        have haware := hcalls.aware hphase (j := j) (by rw [hreturned]; rfl)
        rw [hreturned, Call.killed, hprocess] at haware
        exact Or.inl (haware.resolve_right List.not_mem_nil)
    | waited id status =>
        rw [hphase] at hfits
        cases status with
        | none => exact Or.inr (Or.inr rfl)
        | some status => cases hfits
    | dropped status =>
        rw [hphase] at hfits
        cases status with
        | none => exact Or.inr (Or.inr rfl)
        | some status => cases hfits
    | ended result =>
        rw [hphase] at hfits
        cases result with
        | waitFailed => exact Or.inr (Or.inr rfl)
        | cancelled => simp at hfits
        | _ => cases hfits
    | spawned => exact Or.inr (Or.inl rfl)
    | numbered id => exact Or.inr (Or.inl rfl)
    | registered id => exact Or.inr (Or.inl rfl)
    | killing id => exact Or.inr (Or.inl rfl)
    | _ =>
        rw [hphase] at hfits
        cases hfits

/-- A call whose child runs while a cancellation goes by. -/
def interrupted : State :=
  let spawned := ((State.initial.setCall 0 {} ⟨.checking, none⟩).setCall 0 {}
    ⟨.spawning, none⟩).setCall 0 {} ⟨.spawned, some {}⟩
  let registered := (spawned.setCall 0 { nextId := 1 } ⟨.numbered 0, some {}⟩).setCall 0
    { nextId := 1, children := (∅ : Std.ExtTreeMap Nat Nat).insert 0 0 } ⟨.registered 0, some {}⟩
  let waiting := (registered.setCall 0 registered.token ⟨.waiting 0, some {}⟩).setCancel 0 .storing
  let listing : State :=
    { waiting.setCancel 0 .listing with token := { waiting.token with cancelled := true } }
  let killed := ((listing.setCancel 0 (.killing [0] 0)).setCall 0 listing.token
    ⟨.waiting 0, some { killed := true }⟩).setCancel 0 (.killing [] 1)
  killed.setCancel 0 (.returned 1)

theorem interrupted_reachable : Reachable Step State.initial interrupted :=
  ⟨[.call 0, .call 0, .call 0, .call 0, .call 0, .call 0, .cancel 0, .cancel 0, .cancel 0,
      .cancel 0, .cancel 0],
    .cons (.call .begin) <| .cons (.call (.pass rfl)) <| .cons (.call .spawn) <|
    .cons (.call .number) <| .cons (.call .register) <| .cons (.call (.proceed rfl)) <|
    .cons (.start rfl) <| .cons (.store rfl) <| .cons (.list rfl (List.Perm.refl _)) <|
    .cons (.kill rfl true) <| .cons (.finish rfl) <| .nil _⟩

/-- The child that is waited for runs on, and was sent a kill. -/
theorem cancel_leaves_none_interrupted :
    ∃ process, (interrupted.calls 0).process = some process ∧ process.exit = none ∧
      (process.killed = true ∨ (interrupted.calls 0).phase.willCheck = true ∨
        (interrupted.calls 0).phase.waitFailed = true) := by
  obtain ⟨-, hreturned⟩ := cancel_leaves_none interrupted_reachable (by decide)
  obtain ⟨-, hkilled⟩ := hreturned 0 1 rfl
  exact ⟨{ killed := true }, rfl, rfl, hkilled 0 { killed := true } rfl rfl⟩

/-! ## After the flag is set -/

/-- A call that had not passed its first check when the flag was set. -/
def Call.Refused (call : Call) : Prop :=
  call.process = none ∧
    (call.phase = .idle ∨ call.phase = .checking ∨ call.phase = .ended .cancelled)

theorem CallStep.refused {me : Nat} {token token' : Cancellation} {call call' : Call}
    (step : CallStep me token call token' call') (hflag : token.cancelled = true)
    (h : call.Refused) : call'.Refused := by
  obtain ⟨hprocess, hphase⟩ := h
  cases step with
  | begin => exact ⟨hprocess, Or.inr (Or.inl rfl)⟩
  | refuse _ => exact ⟨hprocess, Or.inr (Or.inr rfl)⟩
  | pass hclear =>
      rw [hflag] at hclear
      cases hclear
  | _ => rcases hphase with hphase | hphase | hphase <;> cases hphase

theorem Call.Ages.refused {old new : Call} (h : Call.Ages old new) (hrefused : old.Refused) :
    new.Refused := by
  obtain ⟨hprocess, hphase⟩ := hrefused
  refine ⟨?_, by rw [h.phase]; exact hphase⟩
  have hsome := h.process
  rw [hprocess] at hsome
  exact Option.not_isSome_iff_eq_none.mp (by simp [hsome])

theorem Step.refused {s t : State} {event : Event} (step : Step s event t)
    (hflag : s.token.cancelled = true) {i : Nat} (h : (s.calls i).Refused) :
    (t.calls i).Refused := by
  rcases step.call_cases i with ⟨-, hcall⟩ | hages
  · exact hcall.refused hflag h
  · exact hages.refused h

/-- **A call returns only output of a process that ended by itself. Once the flag is set, a call
that has not passed its first check spawns nothing and is refused, and no call goes on to return
output.** -/
theorem cancelled_returns_nothing {s t : State} {events : List Event}
    (h : Reachable Step State.initial s) (run : Run Step s events t)
    (hbound : t.token.nextId ≤ 2 ^ 64) :
    (∀ i status, (t.calls i).phase = .ended (.output status) →
      (t.calls i).exit = some status ∧ (t.calls i).killed = false) ∧
    (s.token.cancelled = true → ∀ i,
      ((s.calls i).phase = .idle ∨ (s.calls i).phase = .checking →
        (t.calls i).process = none ∧
          ∀ result, (t.calls i).phase = .ended result → result = .cancelled) ∧
      ∀ status, (t.calls i).phase.returning = some status →
        (s.calls i).phase.returning = some status) := by
  obtain ⟨-, hcalls⟩ := supervised_reachable (h.extend run) hbound
  refine ⟨fun i status hphase => ⟨?_, ?_⟩, fun hflag i => ⟨fun hstart => ?_, ?_⟩⟩
  · have hfits := hcalls.fits i
    rw [Call.Fits, hphase] at hfits
    exact hfits
  · exact (hcalls.uncut (by rw [hphase]; rfl)).1
  · have hrefused : (s.calls i).Refused := by
      have hfits := (supervised_reachable h (Nat.le_trans (nextId_le_of_run run) hbound)).2.fits i
      rw [Call.Fits] at hfits
      rcases hstart with hphase | hphase <;> rw [hphase] at hfits
      · exact ⟨hfits, Or.inl hphase⟩
      · exact ⟨hfits, Or.inr (Or.inl hphase)⟩
    have hkept : t.token.cancelled = true ∧ (t.calls i).Refused :=
      run.preserves (P := fun s => s.token.cancelled = true ∧ (s.calls i).Refused)
        (fun _ _ _ hs step => ⟨step.cancelled_mono hs.1, step.refused hs.1 hs.2⟩)
        ⟨hflag, hrefused⟩
    obtain ⟨-, hprocess, hphase⟩ := hkept
    refine ⟨hprocess, fun result hover => ?_⟩
    rw [hover] at hphase
    rcases hphase with hphase | hphase | hphase <;> cases hphase
    rfl
  · intro status
    have hkept : t.token.cancelled = true ∧ ((t.calls i).phase.returning = some status →
        (s.calls i).phase.returning = some status) := by
      refine run.preserves (P := fun t => t.token.cancelled = true ∧
        ((t.calls i).phase.returning = some status → (s.calls i).phase.returning = some status))
        ?_ ⟨hflag, id⟩
      rintro u event v ⟨hset, hold⟩ step
      refine ⟨step.cancelled_mono hset, fun hphase => hold ?_⟩
      rcases step.call_cases i with ⟨-, hcall⟩ | hages
      · obtain ⟨-, ⟨-, hclear⟩ | hphase⟩ := hcall.returning hphase
        · rw [hset] at hclear
          cases hclear
        · exact hphase
      · exact hages.phase ▸ hphase
    exact hkept.2

/-- A call that comes too late is refused. -/
theorem cancelled_returns_nothing_interrupted :
    ∃ t, Run Step interrupted [.call 1, .call 1] t ∧ (t.calls 1).process = none ∧
      ∀ result, (t.calls 1).phase = .ended result → result = .cancelled := by
  have hrun : Run Step interrupted [.call 1, .call 1]
      ((interrupted.setCall 1 interrupted.token ⟨.checking, none⟩).setCall 1 interrupted.token
        ⟨.ended .cancelled, none⟩) :=
    .cons (.call .begin) <| .cons (.call (.refuse rfl)) <| .nil _
  obtain ⟨-, hlater⟩ := cancelled_returns_nothing interrupted_reachable hrun (by decide)
  exact ⟨_, hrun, (hlater rfl 1).1 (Or.inl rfl)⟩

end BazelDiff.Cancel
