/-
# Cancelled while queued

A worker in `acquire` looks at its token only while it finds the workspace taken. Once the
holder is gone, a query that was cancelled in the queue takes the workspace like any other.
None does in a run in which the workspace is never released over a cancelled query in the
queue, and no queued query is cancelled while the workspace is free; and after any step that
breaks this, the cancelled query can.
-/

import BazelDiff.Server.Workers

namespace BazelDiff.Server

/-- The worker of a party is still in `acquire`. -/
def State.Queued (s : State) (i : Nat) : Prop :=
  ∃ p task, s.parties[i]? = some p ∧ p.worker = .queued task

/-- No step from here records a cancelled token as the holder's. -/
def SparesCancelled (config : Config) (timed : Bool) (s : State) : Prop :=
  ∀ event t i, Step config timed s event t → s.shared.holder ≠ some i →
    t.shared.holder = some i → s.shared.cancelled i = false

/-- A step does not leave a cancelled query in the queue for a free workspace: it does not
release the workspace over one, nor cancel one in front of it. -/
structure Considerate (s t : State) : Prop where
  release : s.shared.holder ≠ none → t.shared.holder = none →
    ∀ i, s.Queued i → s.shared.cancelled i = false
  cancel : ∀ i, s.Queued i → s.shared.cancelled i = false → t.shared.cancelled i = true →
    s.shared.holder ≠ none

/-- A free workspace has no cancelled query in its queue. -/
def Quiet (s : State) : Prop :=
  s.shared.holder = none → ∀ i, s.Queued i → s.shared.cancelled i = false

/-! ## What a step does to the queue -/

namespace WorkerStep

variable {me : Nat} {query : Bool} {s s' : Shared} {phase phase' : Phase}
  {effect : Option (Effect × Option Nat)}

theorem leaves_queue (step : WorkerStep me query s phase effect s' phase') (task : Task) :
    phase' ≠ .queued task := by
  cases step <;> exact Phase.noConfusion

theorem cancelled_eq (step : WorkerStep me query s phase effect s' phase') :
    s'.cancelled = s.cancelled := by
  cases step <;> rfl

/-- The workspace passes to a worker that was in the queue and found it free. -/
theorem takes (step : WorkerStep me query s phase effect s' phase') {i : Nat}
    (hnot : s.holder ≠ some i) (hholds : s'.holder = some i) :
    i = me ∧ s.holder = none ∧ ∃ task, phase = .queued task := by
  cases step with
  | acquire free => exact ⟨(Option.some.inj hholds).symm, free, _, rfl⟩
  | release => cases hholds
  | _ => exact absurd hholds hnot

/-- The workspace is given back by a worker that is no longer in the queue. -/
theorem frees (step : WorkerStep me query s phase effect s' phase') (hholds : s.holder ≠ none)
    (hfree : s'.holder = none) (task : Task) : phase ≠ .queued task := by
  cases step with
  | acquire free => cases hfree
  | release => exact Phase.noConfusion
  | _ => exact absurd hfree hholds

end WorkerStep

namespace HandlerStep

variable {timed : Bool} {me : Nat} {s s' : Shared} {worker : Phase} {handler next : Handler}

theorem holder_eq (step : HandlerStep timed me s worker handler s' next) : s'.holder = s.holder := by
  cases step <;> rfl

end HandlerStep

namespace State

variable {s : State} {i j : Nat} {p : Party}

/-- A party that is not in the queue afterwards leaves the rest of the queue alone. -/
theorem Queued.set_ne (hij : j ≠ i) (phase : Phase) (shared : Shared) :
    ({ shared := shared, parties := s.parties.set j { p with worker := phase } } : State).Queued i ↔
      s.Queued i := by
  rw [Queued, Queued]
  simp only [List.getElem?_set_ne hij]

theorem not_queued_set (hp : s.parties[j]? = some p) {phase : Phase}
    (hphase : ∀ task, phase ≠ .queued task) (shared : Shared) :
    ¬ ({ shared := shared, parties := s.parties.set j { p with worker := phase } } : State).Queued
      j := by
  rintro ⟨q, task, hq, hworker⟩
  rw [List.getElem?_set_self (List.getElem?_eq_some_iff.mp hp).1] at hq
  cases hq
  exact hphase task hworker

/-- A handler does not move its worker in the queue. -/
theorem queued_set_handler (hp : s.parties[j]? = some p) (handler : Option Handler)
    (shared : Shared) :
    ({ shared := shared, parties := s.parties.set j { p with handler := handler } } : State).Queued i ↔
      s.Queued i := by
  rw [Queued, Queued]
  by_cases hij : j = i
  · subst hij
    rw [List.getElem?_set_self (List.getElem?_eq_some_iff.mp hp).1, hp]
    simp
  · simp only [List.getElem?_set_ne hij]

/-- A new party queues behind the others. -/
theorem queued_append (q : Party) (shared : Shared)
    (h : ({ shared := shared, parties := s.parties ++ [q] } : State).Queued i) :
    s.Queued i ∨ i = s.parties.length := by
  obtain ⟨p, task, hp, hworker⟩ := h
  rcases Nat.lt_or_ge i s.parties.length with hi | hi
  · exact Or.inl ⟨p, task, (List.getElem?_append_left hi).symm.trans hp, hworker⟩
  · have hlt := (List.getElem?_eq_some_iff.mp hp).1
    rw [List.length_append, List.length_singleton] at hlt
    exact Or.inr (by omega)

end State

/-! ## Every step of the server -/

variable {config : Config} {timed : Bool} {s t : State} {event : Event}

theorem quiet_initial : Quiet State.initial := by
  rintro - i ⟨p, task, hp, -⟩
  cases hp

/-- A considerate step from a quiet state ends in one. -/
theorem Quiet.step (hs : Quiet s) (hstep : Step config timed s event t) (hkind : Considerate s t) :
    Quiet t := by
  intro hfree i hqueued
  cases hstep with
  | @worker j p effect shared phase party step =>
      have hne : j ≠ i := by
        rintro rfl
        exact State.not_queued_set party step.leaves_queue shared hqueued
      have hqueue := (State.Queued.set_ne hne phase shared).mp hqueued
      show shared.cancelled i = false
      rw [step.cancelled_eq]
      by_cases hheld : s.shared.holder = none
      · exact hs hheld i hqueue
      · exact hkind.release hheld hfree i hqueue
  | @handler j p handler next shared party handles step =>
      have hqueue := (State.queued_set_handler party (some next) shared).mp hqueued
      have hheld : s.shared.holder = none := step.holder_eq.symm.trans hfree
      by_contra hcancelled
      rw [Bool.not_eq_false] at hcancelled
      exact hkind.cancel i hqueue (hs hheld i hqueue) hcancelled hheld
  | accept inputs =>
      show Function.update s.shared.cancelled s.parties.length false i = false
      rw [Function.update_apply]
      split_ifs with hi
      · rfl
      · exact hs hfree i ((State.queued_append _ _ hqueued).resolve_right hi)
  | warm =>
      show Function.update s.shared.cancelled s.parties.length false i = false
      rw [Function.update_apply]
      split_ifs with hi
      · rfl
      · exact hs hfree i ((State.queued_append _ _ hqueued).resolve_right hi)

/-- From a quiet state no cancelled query takes the workspace. -/
theorem Quiet.spares (hs : Quiet s) : SparesCancelled config timed s := by
  intro event t i hstep hnot hholds
  cases hstep with
  | @worker j p effect shared phase party step =>
      obtain ⟨rfl, hfree, task, hworker⟩ := step.takes hnot hholds
      exact hs hfree i ⟨p, task, party, hworker⟩
  | @handler j p handler next shared party handles step =>
      exact absurd (step.holder_eq.symm.trans hholds) hnot
  | accept inputs => exact absurd hholds hnot
  | warm => exact absurd hholds hnot

/-- A cancelled query in the queue takes a free workspace. -/
theorem not_spares_of_queued {i : Nat} (hqueued : t.Queued i) (hfree : t.shared.holder = none)
    (hcancelled : t.shared.cancelled i = true) : ¬ SparesCancelled config timed t := by
  intro hspares
  obtain ⟨p, task, hp, hworker⟩ := hqueued
  have hstep := @Step.worker config timed t i p none _ _ hp (hworker ▸ WorkerStep.acquire hfree)
  have hspared := hspares _ _ i hstep (by rw [hfree]; simp) rfl
  rw [hcancelled] at hspared
  cases hspared

theorem fresh_not_cancelled {cancelled : Nat → Bool} {i fresh : Nat} (h : cancelled i = false) :
    ¬ Function.update cancelled fresh false i = true := by
  rw [Function.update_apply]
  split_ifs
  · simp
  · simp [h]

/-- After a step that is not considerate, a cancelled query can take the workspace. -/
theorem not_spares_of_not_considerate (hstep : Step config timed s event t)
    (hkind : ¬ Considerate s t) : ¬ SparesCancelled config timed t := by
  intro hspares
  apply hkind
  constructor
  · intro hheld hfree i hqueued
    by_contra hcancelled
    rw [Bool.not_eq_false] at hcancelled
    cases hstep with
    | @worker j p effect shared phase party step =>
        have hne : j ≠ i := by
          rintro rfl
          obtain ⟨q, task, hq, hworker⟩ := hqueued
          obtain rfl : p = q := Option.some.inj (party.symm.trans hq)
          exact step.frees hheld hfree task hworker
        apply not_spares_of_queued ((State.Queued.set_ne hne phase shared).mpr hqueued) hfree _ hspares
        show shared.cancelled i = true
        rw [step.cancelled_eq]
        exact hcancelled
    | @handler j p handler next shared party handles step =>
        exact hheld (step.holder_eq.symm.trans hfree)
    | accept inputs => exact hheld hfree
    | warm => exact hheld hfree
  · intro i hqueued hbefore hafter hfree
    cases hstep with
    | @worker j p effect shared phase party step =>
        have hsame := congrFun step.cancelled_eq i
        rw [hbefore] at hsame
        exact absurd (hsame.symm.trans hafter) Bool.false_ne_true
    | @handler j p handler next shared party handles step =>
        exact not_spares_of_queued ((State.queued_set_handler party (some next) shared).mpr hqueued)
          (step.holder_eq.trans hfree) hafter hspares
    | accept inputs => exact absurd hafter (fresh_not_cancelled hbefore)
    | warm => exact absurd hafter (fresh_not_cancelled hbefore)

/-- In every run of considerate steps no cancelled query takes the workspace, in no state it
reaches; and after any other step one can. -/
theorem cancelled_spared_iff_considerate (config : Config) (timed : Bool) :
    (∀ s, Reachable (fun s event t => Step config timed s event t ∧ Considerate s t)
      State.initial s → SparesCancelled config timed s) ∧
    ∀ s event t, Step config timed s event t → ¬ Considerate s t →
      ¬ SparesCancelled config timed t := by
  constructor
  · intro s hreach
    have hquiet : Quiet s := hreach.invariant quiet_initial
      fun _ _ _ hs hstep => hs.step hstep.1 hstep.2
    exact hquiet.spares
  · intro s event t hstep hkind
    exact not_spares_of_not_considerate hstep hkind

/-- The first of two queries holds the workspace; the second was cancelled in the queue, and
then the first ended. -/
def abandonedQueue : State :=
  { shared :=
      { holder := none
        cancelled := Function.update
          (Function.update (Function.update (fun _ => false) 0 false) 1 false) 1 true
        activeQueries := 2 }
    parties :=
      [⟨.released none, some .waiting⟩,
        ⟨.queued (Task.computeQuery ⟨false, false, false, false⟩ ⟨true, true, .depEdges⟩),
          some .cancelling⟩] }

/-- The cancelled query takes the workspace. -/
theorem abandonedQueue_takes :
    Reachable (Step ⟨false, false, false, false⟩ true) State.initial abandonedQueue ∧
      abandonedQueue.shared.cancelled 1 = true ∧
      (∃ event t, Step ⟨false, false, false, false⟩ true abandonedQueue event t ∧
        abandonedQueue.shared.holder = none ∧ t.shared.holder = some 1) ∧
      ¬ SparesCancelled ⟨false, false, false, false⟩ true abandonedQueue := by
  refine ⟨?_, rfl, ?_, ?_⟩
  · apply Exists.intro
    apply Run.cons (.accept ⟨true, true, .depEdges⟩)
    apply Run.cons (.accept ⟨true, true, .depEdges⟩)
    apply Run.cons (@Step.worker _ _ _ 0 _ _ _ _ rfl (.acquire rfl))
    apply Run.cons (@Step.handler _ _ _ 1 _ _ _ _ rfl rfl (.timeout rfl rfl))
    apply Run.cons (@Step.handler _ _ _ 1 _ _ _ _ rfl rfl .cancel)
    apply Run.cons (@Step.worker _ _ _ 0 _ _ _ _ rfl .panic)
    apply Run.cons (@Step.worker _ _ _ 0 _ _ _ _ rfl .release)
    exact .nil _
  · exact ⟨_, _, @Step.worker _ _ _ 1 _ _ _ _ rfl (.acquire rfl), rfl, rfl⟩
  · exact not_spares_of_queued (i := 1) ⟨_, _, rfl, rfl⟩ rfl rfl

/-- A step that neither releases the workspace nor cancels anything is considerate. -/
theorem Considerate.of_unchanged (hholder : t.shared.holder = none → s.shared.holder = none)
    (hcancelled : ∀ i, t.shared.cancelled i = true → s.shared.cancelled i = true) :
    Considerate s t where
  release hheld hfree := absurd (hholder hfree) hheld
  cancel i _ hbefore hafter := by
    rw [hcancelled i hafter] at hbefore
    cases hbefore

/-- A step while the workspace is held, which it stays, is considerate. -/
theorem Considerate.of_held (hs : s.shared.holder ≠ none) (ht : t.shared.holder ≠ none) :
    Considerate s t where
  release _ hfree := absurd hfree ht
  cancel _ _ _ _ := hs

theorem Considerate.accept (cancelled : Nat → Bool) (fresh count count' : Nat)
    (parties parties' : List Party) :
    Considerate ⟨⟨none, cancelled, count⟩, parties⟩
      ⟨⟨none, Function.update cancelled fresh false, count'⟩, parties'⟩ := by
  apply Considerate.of_unchanged
  · exact fun _ => rfl
  · intro i hafter
    by_contra hbefore
    exact fresh_not_cancelled (by simpa using hbefore) hafter

/-- The second of two queries was cancelled in the queue and gave up. -/
def gaveUp : State :=
  { shared :=
      { holder := some 0
        cancelled := abandonedQueue.shared.cancelled
        activeQueries := 2 }
    parties :=
      [⟨.holding (fun _ => none)
          (Task.computeQuery ⟨false, false, false, false⟩ ⟨true, true, .depEdges⟩), some .waiting⟩,
        ⟨.released (some false), some .cancelling⟩] }

/-- The second of two queries was cancelled in the queue, and the first is about to return. -/
def returningFirst : State :=
  { shared := { abandonedQueue.shared with holder := some 0 }
    parties := abandonedQueue.parties.set 0 ⟨.returning none, some .waiting⟩ }

/-- A query cancelled while another one holds the workspace gives up; released over it instead,
the workspace is its own. -/
theorem cancelled_spared_in_time :
    (Reachable (fun s event t => Step ⟨false, false, false, false⟩ true s event t ∧
        Considerate s t) State.initial gaveUp ∧
      SparesCancelled ⟨false, false, false, false⟩ true gaveUp) ∧
    Step ⟨false, false, false, false⟩ true returningFirst (.internal 0) abandonedQueue ∧
      ¬ Considerate returningFirst abandonedQueue ∧
      ¬ SparesCancelled ⟨false, false, false, false⟩ true abandonedQueue := by
  obtain ⟨hspares, htakes⟩ := cancelled_spared_iff_considerate ⟨false, false, false, false⟩ true
  have hreach : Reachable (fun s event t => Step ⟨false, false, false, false⟩ true s event t ∧
      Considerate s t) State.initial gaveUp := by
    apply Exists.intro
    apply Run.cons ⟨.accept ⟨true, true, .depEdges⟩, Considerate.accept _ _ _ _ _ _⟩
    apply Run.cons ⟨.accept ⟨true, true, .depEdges⟩, Considerate.accept _ _ _ _ _ _⟩
    apply Run.cons ⟨@Step.worker _ _ _ 0 _ _ _ _ rfl (.acquire rfl),
      Considerate.of_unchanged (fun _ => rfl) fun _ h => h⟩
    apply Run.cons ⟨@Step.handler _ _ _ 1 _ _ _ _ rfl rfl (.timeout rfl rfl),
      Considerate.of_held (by simp) (by simp)⟩
    apply Run.cons ⟨@Step.handler _ _ _ 1 _ _ _ _ rfl rfl .cancel,
      Considerate.of_held (by simp) (by simp)⟩
    apply Run.cons ⟨@Step.worker _ _ _ 1 _ _ _ _ rfl (.giveUp rfl rfl),
      Considerate.of_held (by simp) (by simp)⟩
    exact .nil _
  have hstep : Step ⟨false, false, false, false⟩ true returningFirst (.internal 0) abandonedQueue := by
    show Step _ _ returningFirst (Event.ofEffect 0 none)
      { shared := { returningFirst.shared with holder := none }
        parties := returningFirst.parties.set 0 ⟨.released none, some .waiting⟩ }
    exact @Step.worker _ _ _ 0 ⟨.returning none, some .waiting⟩ _ _ _ rfl .release
  have hover : ¬ Considerate returningFirst abandonedQueue := by
    intro hkind
    have hspared := hkind.release (by simp [returningFirst]) rfl 1 ⟨_, _, rfl, rfl⟩
    cases hspared
  exact ⟨⟨hreach, hspares gaveUp hreach⟩, hstep, hover, htakes _ _ _ hstep hover⟩

end BazelDiff.Server
