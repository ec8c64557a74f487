/-
Sleeping workers of a `thread_pool`.  A worker that sleeps while its predicate
holds has a notification to come, or another worker to take the task, unless
`remove_work_guard` notifies before a worker that has seen the last guard is
asleep.
-/
import Iocoro.ThreadPool

namespace Iocoro

namespace ThreadPool

/-- The worker is counted in `waiting_workers`. -/
@[simp] def Worker.waits : Worker → Bool
  | .checking | .unready | .asleep | .woken | .ready => true
  | _ => false

/-- The worker comes back to the queue without being notified. -/
@[simp] def Worker.awake : Worker → Bool
  | .asleep | .exited => false
  | _ => true

/-- A call of `notify_one` or `notify_all` is still to come. -/
def State.notices (s : State) : Prop :=
  0 < s.notifyOnes ∨ ∃ source, 0 < s.notifyAlls source

structure WakeInv (s : State) : Prop where
  mutex : MutexInv s
  waiting : s.waitingWorkers = s.workers.countP Worker.waits
  unready : .unready ∈ s.workers →
    s.queue = [] ∧ (s.drained = true → 0 < s.notifyAlls .removeGuard)
  ready : .ready ∈ s.workers → s.queue = [] → s.drained = true
  asleep : .asleep ∈ s.workers → s.drained = true →
    ∃ source, 0 < s.notifyAlls source
  served : .asleep ∈ s.workers → s.queue ≠ [] →
    s.notices ∨ ∃ worker ∈ s.workers, worker.awake = true
  stopped : s.state = .stopped → ∀ worker ∈ s.workers, worker = .exited
  asserted : s.asserted = false

theorem move_waiting {s t : State} (hs : WakeInv s) {w : Nat} {old new : Worker}
    (hw : s.workers[w]? = some old) (hmove : WorkerMove s w old new t) :
    t.waitingWorkers = (s.workers.set w new).countP Worker.waits := by
  have hlt := (List.getElem?_eq_some_iff.mp hw).1
  have hset := Inventory.countP_set hlt Worker.waits new .outside
  rw [List.getD_eq_getElem?_getD, hw, Option.getD_some, ← hs.waiting] at hset
  cases hmove with
  | finish _ hnew => rcases hnew with rfl | rfl <;> simpa using hset.symm
  | _ =>
      simp at hset ⊢
      omega

theorem WorkerMove.drained {s t : State} {w : Nat} {old new : Worker}
    (h : WorkerMove s w old new t) : t.drained = s.drained := by
  cases h <;> rfl

theorem WorkerMove.notifyAlls {s t : State} {w : Nat} {old new : Worker}
    (h : WorkerMove s w old new t) : t.notifyAlls = s.notifyAlls := by
  cases h <;> rfl

theorem move_unready {s t : State} (hs : WakeInv s) {w : Nat} {old new : Worker}
    (hmove : WorkerMove s w old new t)
    (hmem : Worker.unready ∈ s.workers.set w new) :
    t.queue = [] ∧ (t.drained = true → 0 < t.notifyAlls .removeGuard) := by
  rw [hmove.drained, hmove.notifyAlls]
  rcases List.mem_or_eq_of_mem_set hmem with hold | rfl
  · obtain ⟨hqueue, hnotice⟩ := hs.unready hold
    refine ⟨?_, hnotice⟩
    cases hmove with
    | take hcons => simp [hqueue] at hcons
    | _ => exact hqueue
  · cases hmove with
    | fail hfalse =>
        obtain ⟨hqueue, hdrained⟩ : s.queue = [] ∧ s.drained = false := by
          simpa [State.predicate] using hfalse
        exact ⟨hqueue, by simp [hdrained]⟩
    | finish _ hnew => simp at hnew

theorem move_ready {s t : State} (hs : WakeInv s) {w : Nat} {old new : Worker}
    (hw : s.workers[w]? = some old) (hmove : WorkerMove s w old new t)
    (hmem : Worker.ready ∈ s.workers.set w new) (hqueue : t.queue = []) :
    t.drained = true := by
  rw [hmove.drained]
  rcases List.mem_or_eq_of_mem_set hmem with hold | rfl
  · cases hmove with
    | take hcons =>
        -- The worker that took the task was the only one with the mutex.
        obtain ⟨v, hv⟩ := List.mem_iff_getElem?.mp hmem
        have hmine := hs.mutex w _ hw rfl
        obtain ⟨-, heq⟩ := hs.mutex.eq_of_holds (.inr hmine) hv rfl
        simp at heq
    | _ => exact hs.ready hold hqueue
  · cases hmove with
    | pass htrue => simpa [State.predicate, hqueue] using htrue
    | finish _ hnew => simp at hnew

theorem move_asleep {s t : State} (hs : WakeInv s) {w : Nat} {old new : Worker}
    (hw : s.workers[w]? = some old) (hmove : WorkerMove s w old new t)
    (hmem : Worker.asleep ∈ s.workers.set w new) (hdrained : t.drained = true) :
    ∃ source, 0 < t.notifyAlls source := by
  rw [hmove.drained] at hdrained
  rw [hmove.notifyAlls]
  rcases List.mem_or_eq_of_mem_set hmem with hold | rfl
  · exact hs.asleep hold hdrained
  · cases hmove with
    | sleep =>
        exact ⟨_, (hs.unready (List.mem_of_getElem? hw)).2 hdrained⟩
    | finish _ hnew => simp at hnew

theorem move_served {s t : State} (hs : WakeInv s) {w : Nat} {old new : Worker}
    (hw : s.workers[w]? = some old) (hmove : WorkerMove s w old new t)
    (hqueue : t.queue ≠ []) :
    t.notices ∨ ∃ worker ∈ s.workers.set w new, worker.awake = true := by
  have hlt := (List.getElem?_eq_some_iff.mp hw).1
  have hnew := List.mem_set hlt new
  right
  cases hmove with
  | sleep => exact absurd (hs.unready (List.mem_of_getElem? hw)).1 hqueue
  | exit hnil => exact absurd hnil hqueue
  | finish _ hplace => rcases hplace with rfl | rfl <;> exact ⟨_, hnew, rfl⟩
  | _ => exact ⟨_, hnew, rfl⟩

theorem move_inv {s t : State} (hs : WakeInv s) {w : Nat} {old new : Worker}
    (hw : s.workers[w]? = some old) (hmove : WorkerMove s w old new t) :
    WakeInv (t.setWorker w new) := by
  have hworkers : (t.setWorker w new).workers = s.workers.set w new := by
    rw [State.setWorker, hmove.workers]
  have hmem := List.mem_of_getElem? hw
  constructor
  · exact move_mutex hs.mutex hw hmove
  · rw [hworkers]
    exact move_waiting (t := t) hs hw hmove
  · rw [hworkers]
    exact move_unready (t := t) hs hmove
  · rw [hworkers]
    exact move_ready (t := t) hs hw hmove
  · rw [hworkers]
    exact move_asleep (t := t) hs hw hmove
  · rw [hworkers]
    exact fun _ => move_served (t := t) hs hw hmove
  · intro hstopped
    have hstate : s.state = .stopped := by
      cases hmove <;> exact hstopped
    have hexited := hs.stopped hstate old hmem
    subst hexited
    cases hmove
  · cases hmove with
    | exit hqueue =>
        have hdrained := hs.ready hmem hqueue
        simp [State.setWorker, hs.asserted, hdrained]
    | _ => exact hs.asserted

/-! ### Steps of the pool -/

/-- `remove_work_guard` does not notify while a worker has found its predicate
false and is not yet asleep; and no guard is added while a worker is on its way
out. -/
def State.heeds (s : State) : Action → Bool
  | .notifyAll .removeGuard =>
      !(s.drained && decide (Worker.unready ∈ s.workers))
  | .addGuard => !(s.queue.isEmpty && decide (Worker.ready ∈ s.workers))
  | _ => true

theorem post_inv {s t : State} (hs : WakeInv s) (hstep : s.post = some t) :
    WakeInv t := by
  unfold State.post at hstep
  split at hstep
  · simp at hstep
  · next hlocked =>
      have hfree := mutex_of_isSome hlocked
      split at hstep
      · next hrunning =>
          obtain rfl := Option.some.inj hstep
          exact { hs with
            unready := fun hmem => by simpa using hs.mutex.no_holder hfree hmem
            ready := by simp
            served := by
              intro hasleep _
              have hwaiting : 0 < s.waitingWorkers := by
                rw [hs.waiting, List.countP_pos_iff]
                exact ⟨_, hasleep, rfl⟩
              exact .inl (.inl (by simp [hwaiting])) }
      · obtain rfl := Option.some.inj hstep
        exact { hs with }

theorem notifyAlls_announce_self (s : State) (source : Notifier) :
    0 < (s.announce source).notifyAlls source := by
  simp [State.announce]

theorem stop_inv {s t : State} (hs : WakeInv s) (hstep : s.stop = some t) :
    WakeInv t := by
  unfold State.stop at hstep
  split at hstep
  · simp at hstep
  · next hlocked =>
      have hfree := mutex_of_isSome hlocked
      obtain rfl := Option.some.inj hstep
      exact { hs with
        unready := fun hmem => by simpa using hs.mutex.no_holder hfree hmem
        ready := fun hmem => by simpa using hs.mutex.no_holder hfree hmem
        asleep := fun _ _ => ⟨.stop, notifyAlls_announce_self _ _⟩
        served := fun _ _ => .inl (.inr ⟨.stop, notifyAlls_announce_self _ _⟩)
        stopped := by
          intro hstopped
          apply hs.stopped
          change s.state.drain = .stopped at hstopped
          cases hstate : s.state <;> simp_all [PoolState.drain] }

theorem wake_ne_asleep (worker : Worker) : worker.wake ≠ .asleep := by
  cases worker <;> simp [Worker.wake]

/-- Waking leaves a worker where it stands unless it was asleep. -/
theorem wake_eq {worker place : Worker} (hplace : place ≠ .woken)
    (heq : worker.wake = place) : worker = place := by
  cases worker <;> simp_all [Worker.wake]

theorem notifyAll_inv {s : State} {source : Notifier} (hs : WakeInv s)
    (hheeds : s.heeds (.notifyAll source) = true) :
    WakeInv { s with
      notifyAlls := Function.update s.notifyAlls source (s.notifyAlls source - 1)
      workers := s.workers.map Worker.wake } where
  mutex := by
    intro w worker hw hholds
    rw [List.getElem?_map] at hw
    obtain ⟨old, hold, rfl⟩ := Option.map_eq_some_iff.mp hw
    apply hs.mutex w old hold
    rwa [wake_holds] at hholds
  waiting := by
    rw [List.countP_map, hs.waiting]
    apply List.countP_congr
    intro worker _
    cases worker <;> simp [Worker.wake]
  unready := by
    intro hmem
    obtain ⟨old, hold, heq⟩ := List.mem_map.mp hmem
    obtain rfl := wake_eq (by simp) heq
    obtain ⟨hqueue, hnotice⟩ := hs.unready hold
    refine ⟨hqueue, fun hdrained => ?_⟩
    cases source with
    | stop => simpa using hnotice hdrained
    | removeGuard =>
        change s.drained = true at hdrained
        simp [State.heeds, hdrained, hold] at hheeds
  ready := by
    intro hmem
    obtain ⟨old, hold, heq⟩ := List.mem_map.mp hmem
    obtain rfl := wake_eq (by simp) heq
    exact hs.ready hold
  asleep := by
    intro hmem
    obtain ⟨old, hold, heq⟩ := List.mem_map.mp hmem
    exact absurd heq (wake_ne_asleep old)
  served := by
    intro hmem
    obtain ⟨old, hold, heq⟩ := List.mem_map.mp hmem
    exact absurd heq (wake_ne_asleep old)
  stopped := by
    intro hstopped worker hmem
    obtain ⟨old, hold, rfl⟩ := List.mem_map.mp hmem
    rw [hs.stopped hstopped old hold]
    rfl
  asserted := hs.asserted

theorem addGuard_inv {s : State} (hs : WakeInv s)
    (hheeds : s.heeds .addGuard = true) :
    WakeInv { s with guards := s.guards + 1 } := by
  have hdrained : State.drained { s with guards := s.guards + 1 } = false := by
    simp [State.drained]
  exact { hs with
    unready := fun hmem => ⟨(hs.unready hmem).1, by simp [hdrained]⟩
    ready := by
      intro hmem hqueue
      change s.queue = [] at hqueue
      simp [State.heeds, hqueue, hmem] at hheeds
    asleep := by simp [hdrained] }

theorem removeGuard_inv {s t : State} (hs : WakeInv s)
    (hstep : s.poolStep .removeGuard = some t) : WakeInv t := by
  simp only [State.poolStep] at hstep
  split at hstep
  · simp at hstep
  · next hsome =>
      split at hstep
      · obtain rfl := Option.some.inj hstep
        exact { hs with
          unready := fun hmem =>
            ⟨(hs.unready hmem).1, fun _ => notifyAlls_announce_self _ _⟩
          ready := by
            intro hmem hqueue
            have hold := hs.ready hmem hqueue
            simp [State.drained, hsome] at hold
          asleep := fun _ _ => ⟨.removeGuard, notifyAlls_announce_self _ _⟩
          served := fun _ _ =>
            .inl (.inr ⟨.removeGuard, notifyAlls_announce_self _ _⟩) }
      · next hmore =>
          obtain rfl := Option.some.inj hstep
          have hdrained : State.drained { s with guards := s.guards - 1 } =
              false := by
            have hleft : s.guards - 1 ≠ 0 := by omega
            simp [State.drained, hleft]
          exact { hs with
            unready := fun hmem => ⟨(hs.unready hmem).1, by simp [hdrained]⟩
            ready := by
              intro hmem hqueue
              have hold := hs.ready hmem hqueue
              simp [State.drained, hsome] at hold
            asleep := by simp [hdrained] }

theorem notifyOne_inv {s t : State} {w : Option Nat} (hs : WakeInv s)
    (hstep : s.poolStep (.notifyOne w) = some t) : WakeInv t := by
  cases w with
  | none =>
      simp only [State.poolStep] at hstep
      split at hstep
      · simp at hstep
      · next hpending =>
          obtain ⟨-, hnone⟩ := not_or.mp hpending
          obtain rfl := Option.some.inj hstep
          exact { hs with served := fun hmem => absurd hmem hnone }
  | some w =>
      simp only [State.poolStep] at hstep
      split at hstep
      · simp at hstep
      · next hpending =>
          obtain ⟨-, hasleep⟩ := not_or.mp hpending
          have hw : s.workers[w]? = some .asleep := by simpa using hasleep
          obtain rfl := Option.some.inj hstep
          have hwoken := move_inv hs hw .wake
          have hlt := (List.getElem?_eq_some_iff.mp hw).1
          exact { hwoken with
            served := fun _ _ =>
              .inr ⟨.woken, List.mem_set hlt .woken, rfl⟩ }

theorem poolStep_inv {s t : State} {a : Action} (hs : WakeInv s)
    (hheeds : s.heeds a = true) (hstep : s.poolStep a = some t) : WakeInv t := by
  cases a with
  | post => exact post_inv hs hstep
  | notifyOne w => exact notifyOne_inv hs hstep
  | stop => exact stop_inv hs hstep
  | join =>
      obtain ⟨t, hstop, rfl⟩ := Option.map_eq_some_iff.mp hstep
      exact { stop_inv hs hstop with }
  | joinReturns =>
      simp only [State.poolStep] at hstep
      split at hstep
      · simp at hstep
      · next hall =>
          obtain rfl := Option.some.inj hstep
          simp only [ne_eq, not_or, not_exists, not_and, not_not] at hall
          have hexited := hall.2
          exact { hs with
            unready := fun hmem => by simpa using hexited _ hmem
            ready := fun hmem => by simpa using hexited _ hmem
            asleep := fun hmem => by simpa using hexited _ hmem
            served := fun hmem => by simpa using hexited _ hmem
            stopped := fun _ => hexited }
  | notifyAll source =>
      simp only [State.poolStep] at hstep
      split at hstep
      · simp at hstep
      · obtain rfl := Option.some.inj hstep
        exact notifyAll_inv hs hheeds
  | addGuard =>
      obtain rfl := Option.some.inj hstep
      exact addGuard_inv hs hheeds
  | removeGuard => exact removeGuard_inv hs hstep
  | _ => simp [State.poolStep] at hstep

theorem step_wake {s t : State} {a : Action} (hs : WakeInv s)
    (hheeds : s.heeds a = true) (hstep : step s a = some t) : WakeInv t := by
  rcases step_move hstep with ⟨w, old, new, t', hw, hmove, rfl⟩ | hpool
  · exact move_inv hs hw hmove
  · exact poolStep_inv hs hheeds hpool

theorem start_wake (threads : Nat) : WakeInv (system threads).start where
  mutex := start_mutex threads
  waiting := by simp [system, List.countP_replicate]
  unready := by simp [system]
  ready := by simp [system]
  asleep := by simp [system]
  served := by simp [system]
  stopped := by simp [system]
  asserted := rfl

/-! ### No worker is stranded -/

/-- A worker that sleeps although its predicate holds has a notification to come,
or there is a task and another worker awake that takes it; and the assertion
after the wait has not failed. -/
structure Unstranded (s : State) : Prop where
  asleep : ∀ w : Nat, s.workers[w]? = some .asleep → s.predicate = true →
    s.notices ∨ (s.queue ≠ [] ∧ ∃ worker ∈ s.workers, worker.awake = true)
  asserted : s.asserted = false

theorem WakeInv.unstranded {s : State} (hs : WakeInv s) : Unstranded s where
  asleep := by
    intro w hw hpredicate
    have hmem := List.mem_of_getElem? hw
    by_cases hqueue : s.queue = []
    · have hdrained : s.drained = true := by
        simpa [State.predicate, hqueue] using hpredicate
      exact .inl (.inr (hs.asleep hmem hdrained))
    · rcases hs.served hmem hqueue with hnotice | hawake
      · exact .inl hnotice
      · exact .inr ⟨hqueue, hawake⟩
  asserted := hs.asserted

/-- In every run that heeds the window of a worker on its way to sleep, no worker
is stranded. -/
theorem unstranded_of_heeds (threads : Nat) (s : State)
    (hs : (system threads).ReachableUnder (fun s a => s.heeds a = true) s) :
    Unstranded s :=
  (hs.invariant (start_wake threads) fun _ _ _ hinv hheeds hstep =>
    step_wake hinv hheeds hstep).unstranded

/-- One of two workers takes a task; the other one sleeps through `stop` while a
guard is left, and is woken by its removal. -/
theorem unstranded_of_heeds_lastGuard :
    ∃ s, (system 2).ReachableUnder (fun s a => s.heeds a = true) s ∧
      s.workers = [.inTask 0, .woken] ∧ s.predicate = true ∧ Unstranded s := by
  obtain ⟨s, hs, hp⟩ := TransitionSystem.exists_reachableUnder_of_execUnder (system 2)
    (fun s a => s.heeds a = true)
    [.lock 0, .evaluate 0, .sleep 0, .lock 1, .evaluate 1, .sleep 1, .addGuard,
      .post, .notifyOne (some 0), .relock 0, .evaluate 0, .leave 0, .startTask 0,
      .stop, .notifyAll .stop, .relock 1, .evaluate 1, .sleep 1, .removeGuard,
      .notifyAll .removeGuard]
    (fun s => s.workers = [.inTask 0, .woken] ∧ s.predicate = true) (by decide)
  obtain ⟨hworkers, hpredicate⟩ := of_decide_eq_true hp
  exact ⟨s, hs, hworkers, hpredicate, unstranded_of_heeds 2 s hs⟩

/-- `remove_work_guard` notifies while the worker is on its way to sleep; and a
guard added while a worker is on its way out fails its assertion. -/
theorem stranded_notifiedBeforeSleep :
    (∃ s, (system 1).Reachable s ∧ s.workers = [.asleep] ∧ s.drained = true ∧
      ¬ Unstranded s) ∧
    (∃ s, (system 1).Reachable s ∧ s.asserted = true ∧ ¬ Unstranded s) := by
  constructor
  · obtain ⟨s, hs, hp⟩ := TransitionSystem.exists_reachable_of_exec (system 1)
      [.addGuard, .stop, .notifyAll .stop, .lock 0, .evaluate 0, .removeGuard,
        .notifyAll .removeGuard, .sleep 0]
      (fun s => s.workers = [.asleep] ∧ s.drained = true ∧ s.queue = [] ∧
        s.notifyOnes = 0 ∧ s.notifyAlls .stop = 0 ∧
        s.notifyAlls .removeGuard = 0) (by decide)
    obtain ⟨hworkers, hdrained, hqueue, hones, hstop, hguard⟩ :=
      of_decide_eq_true hp
    refine ⟨s, hs, hworkers, hdrained, fun h => ?_⟩
    have hpredicate : s.predicate = true := by simp [State.predicate, hdrained]
    rcases h.asleep 0 (by simp [hworkers]) hpredicate with hnotice | ⟨htask, -⟩
    · rcases hnotice with hone | ⟨source, hall⟩
      · simp [hones] at hone
      · cases source <;> simp_all
    · exact htask hqueue
  · obtain ⟨s, hs, hp⟩ := TransitionSystem.exists_reachable_of_exec (system 1)
      [.stop, .lock 0, .evaluate 0, .addGuard, .leave 0]
      (fun s => s.asserted) (by decide)
    exact ⟨s, hs, hp, fun h => by simp [h.asserted] at hp⟩

end ThreadPool

end Iocoro
