/-
`thread_pool`: any number of workers in `worker_loop` against `post`, `stop`,
`join` and work guards.  The locked sections are single steps; `cv.wait` is the
evaluation of its predicate, the step that releases the mutex and sleeps, and the
way back through the mutex.
-/
import Iocoro.Inventory
import Iocoro.TransitionSystem

namespace Iocoro

namespace ThreadPool

/-- `state_t`. -/
inductive PoolState where
  | running
  | draining
  | stopped
deriving DecidableEq, Repr

/-- Where a worker stands in `worker_loop`.  From `checking` to `unready` or
`ready` it has `cv_mutex`; tasks are known by the number of their `post`. -/
inductive Worker where
  | outside
  | checking
  | unready
  | asleep
  | woken
  | ready
  | taken (task : Nat)
  | inTask (task : Nat)
  | handling
  | exited
deriving DecidableEq, Repr

/-- Who calls `notify_all`. -/
inductive Notifier where
  | stop
  | removeGuard
deriving DecidableEq, Repr

/-- `shared_state`, the workers, the notifications still to come, and what became
of the tasks.  `asserted` says that the assertion after the wait has failed. -/
structure State where
  queue : List Nat := []
  waitingWorkers : Nat := 0
  state : PoolState := .running
  guards : Nat := 0
  mutex : Option Nat := none
  workers : List Worker
  notifyOnes : Nat := 0
  notifyAlls : Notifier → Nat := fun _ => 0
  joining : Nat := 0
  joined : Bool := false
  asserted : Bool := false
  posts : Nat := 0
  accepted : List Nat := []
  dropped : List Nat := []
  dequeued : List Nat := []
  started : List Nat := []
  finished : List Nat := []

/-- Steps of one worker, and of the threads that use the pool.  A worker that
throws calls the exception handler if one is set. -/
inductive Action where
  | lock (w : Nat)
  | evaluate (w : Nat)
  | sleep (w : Nat)
  | spurious (w : Nat)
  | relock (w : Nat)
  | leave (w : Nat)
  | startTask (w : Nat)
  | finishTask (w : Nat)
  | throwTask (w : Nat) (handler : Bool)
  | handlerEnds (w : Nat) (throws : Bool)
  | post
  | notifyOne (w : Option Nat)
  | stop
  | join
  | joinReturns
  | notifyAll (source : Notifier)
  | addGuard
  | removeGuard
deriving DecidableEq, Repr

/-- The pool is draining and no work guard is left. -/
def State.drained (s : State) : Bool :=
  decide (s.state = .draining) && decide (s.guards = 0)

/-- The predicate of `cv.wait`. -/
def State.predicate (s : State) : Bool := !s.queue.isEmpty || s.drained

def State.setWorker (s : State) (w : Nat) (worker : Worker) : State :=
  { s with workers := s.workers.set w worker }

/-- `cv.wait` and the locked sections around it. -/
def State.waitStep (s : State) (w : Nat) (a : Action) (worker : Worker) :
    Option State :=
  match a, worker with
  | .lock _, .outside =>
      if s.mutex.isSome then none
      else some ({ s with
        mutex := some w, waitingWorkers := s.waitingWorkers + 1 }.setWorker w
          .checking)
  | .evaluate _, .checking =>
      some (s.setWorker w (if s.predicate then .ready else .unready))
  | .sleep _, .unready => some ({ s with mutex := none }.setWorker w .asleep)
  | .spurious _, .asleep => some (s.setWorker w .woken)
  | .relock _, .woken =>
      if s.mutex.isSome then none
      else some ({ s with mutex := some w }.setWorker w .checking)
  | .leave _, .ready =>
      let t := { s with
        mutex := none, waitingWorkers := s.waitingWorkers - 1 }
      match s.queue with
      | [] => some ({ t with
          asserted := s.asserted || !s.drained }.setWorker w .exited)
      | task :: rest => some ({ t with
          queue := rest, dequeued := s.dequeued ++ [task] }.setWorker w
            (.taken task))
  | _, _ => none

/-- The task of a worker.  Exceptions of the task and of the handler end there. -/
def State.taskStep (s : State) (w : Nat) (a : Action) (worker : Worker) :
    Option State :=
  match a, worker with
  | .startTask _, .taken task =>
      some ({ s with started := s.started ++ [task] }.setWorker w (.inTask task))
  | .finishTask _, .inTask task =>
      some ({ s with finished := s.finished ++ [task] }.setWorker w .outside)
  | .throwTask _ handler, .inTask task =>
      some ({ s with finished := s.finished ++ [task] }.setWorker w
        (if handler then .handling else .outside))
  | .handlerEnds _ _, .handling => some (s.setWorker w .outside)
  | _, _ => none

/-- `executor_type::post`. -/
def State.post (s : State) : Option State :=
  if s.mutex.isSome then none
  else if s.state = .running then
    some { s with
      queue := s.queue ++ [s.posts], accepted := s.accepted ++ [s.posts]
      posts := s.posts + 1
      notifyOnes := s.notifyOnes + if 0 < s.waitingWorkers then 1 else 0 }
  else some { s with dropped := s.dropped ++ [s.posts], posts := s.posts + 1 }

def State.announce (s : State) (source : Notifier) : State :=
  { s with notifyAlls :=
    Function.update s.notifyAlls source (s.notifyAlls source + 1) }

def PoolState.drain : PoolState → PoolState
  | .running => .draining
  | state => state

/-- `stop`. -/
def State.stop (s : State) : Option State :=
  if s.mutex.isSome then none
  else some ({ s with state := s.state.drain }.announce .stop)

def Worker.wake : Worker → Worker
  | .asleep => .woken
  | worker => worker

/-- Steps that are not those of one worker. -/
def State.poolStep (s : State) : Action → Option State
  | .post => s.post
  | .notifyOne none =>
      if s.notifyOnes = 0 ∨ Worker.asleep ∈ s.workers then none
      else some { s with notifyOnes := s.notifyOnes - 1 }
  | .notifyOne (some w) =>
      if s.notifyOnes = 0 ∨ s.workers[w]? ≠ some .asleep then none
      else some ({ s with notifyOnes := s.notifyOnes - 1 }.setWorker w .woken)
  | .stop => s.stop
  | .join => s.stop.map fun t => { t with joining := t.joining + 1 }
  | .joinReturns =>
      if s.joining = 0 ∨ ∃ worker ∈ s.workers, worker ≠ .exited then none
      else some { s with
        joining := s.joining - 1, joined := true, state := .stopped }
  | .notifyAll source =>
      if s.notifyAlls source = 0 then none
      else some { s with
        notifyAlls := Function.update s.notifyAlls source (s.notifyAlls source - 1)
        workers := s.workers.map Worker.wake }
  | .addGuard => some { s with guards := s.guards + 1 }
  | .removeGuard =>
      if s.guards = 0 then none
      else if s.guards = 1 then some ({ s with guards := 0 }.announce .removeGuard)
      else some { s with guards := s.guards - 1 }
  | _ => none

/-- The worker that takes the step. -/
def Action.worker : Action → Option Nat
  | .lock w | .evaluate w | .sleep w | .spurious w | .relock w | .leave w
  | .startTask w | .finishTask w | .throwTask w _ | .handlerEnds w _ => some w
  | _ => none

def step (s : State) (a : Action) : Option State :=
  match a.worker with
  | some w => s.workers[w]?.bind fun worker =>
      (s.waitStep w a worker).or (s.taskStep w a worker)
  | none => s.poolStep a

/-- A pool of so many threads. -/
def system (threads : Nat) : TransitionSystem State Action where
  start := { workers := List.replicate threads .outside }
  step := step

/-! ### What a step can do -/

/-- A step of the worker `w`, from one place to the next, and the state around
it. -/
inductive WorkerMove (s : State) (w : Nat) : Worker → Worker → State → Prop
  | lock (hfree : s.mutex = none) :
      WorkerMove s w .outside .checking { s with
        mutex := some w, waitingWorkers := s.waitingWorkers + 1 }
  | pass (htrue : s.predicate = true) : WorkerMove s w .checking .ready s
  | fail (hfalse : s.predicate = false) : WorkerMove s w .checking .unready s
  | sleep : WorkerMove s w .unready .asleep { s with mutex := none }
  | wake : WorkerMove s w .asleep .woken s
  | relock (hfree : s.mutex = none) :
      WorkerMove s w .woken .checking { s with mutex := some w }
  | exit (hqueue : s.queue = []) :
      WorkerMove s w .ready .exited { s with
        mutex := none, waitingWorkers := s.waitingWorkers - 1
        asserted := s.asserted || !s.drained }
  | take {task : Nat} {rest : List Nat} (hqueue : s.queue = task :: rest) :
      WorkerMove s w .ready (.taken task) { s with
        mutex := none, waitingWorkers := s.waitingWorkers - 1, queue := rest
        dequeued := s.dequeued ++ [task] }
  | start {task : Nat} :
      WorkerMove s w (.taken task) (.inTask task)
        { s with started := s.started ++ [task] }
  | finish {task : Nat} (new : Worker) (hnew : new = .outside ∨ new = .handling) :
      WorkerMove s w (.inTask task) new
        { s with finished := s.finished ++ [task] }
  | handled : WorkerMove s w .handling .outside s

theorem WorkerMove.workers {s t : State} {w : Nat} {old new : Worker}
    (h : WorkerMove s w old new t) : t.workers = s.workers := by
  cases h <;> rfl

theorem waitStep_move {s t : State} {w : Nat} {a : Action} {worker : Worker}
    (hstep : s.waitStep w a worker = some t) :
    ∃ new t', WorkerMove s w worker new t' ∧ t = t'.setWorker w new := by
  unfold State.waitStep at hstep
  split at hstep
  · split at hstep
    · simp at hstep
    · next hfree =>
        obtain rfl := Option.some.inj hstep
        exact ⟨_, _, .lock (by simpa using hfree), rfl⟩
  · obtain rfl := Option.some.inj hstep
    split
    · next htrue => exact ⟨_, _, .pass htrue, rfl⟩
    · next hfalse => exact ⟨_, _, .fail (by simpa using hfalse), rfl⟩
  · obtain rfl := Option.some.inj hstep
    exact ⟨_, _, .sleep, rfl⟩
  · obtain rfl := Option.some.inj hstep
    exact ⟨_, _, .wake, rfl⟩
  · split at hstep
    · simp at hstep
    · next hfree =>
        obtain rfl := Option.some.inj hstep
        exact ⟨_, _, .relock (by simpa using hfree), rfl⟩
  · split at hstep
    · next hqueue =>
        obtain rfl := Option.some.inj hstep
        exact ⟨_, _, .exit hqueue, rfl⟩
    · next hqueue =>
        obtain rfl := Option.some.inj hstep
        exact ⟨_, _, .take hqueue, rfl⟩
  · simp at hstep

theorem taskStep_move {s t : State} {w : Nat} {a : Action} {worker : Worker}
    (hstep : s.taskStep w a worker = some t) :
    ∃ new t', WorkerMove s w worker new t' ∧ t = t'.setWorker w new := by
  unfold State.taskStep at hstep
  split at hstep
  · obtain rfl := Option.some.inj hstep
    exact ⟨_, _, .start, rfl⟩
  · obtain rfl := Option.some.inj hstep
    exact ⟨_, _, .finish .outside (.inl rfl), rfl⟩
  · next handler _ =>
      obtain rfl := Option.some.inj hstep
      refine ⟨_, _, .finish _ ?_, rfl⟩
      cases handler <;> simp
  · obtain rfl := Option.some.inj hstep
    exact ⟨_, _, .handled, rfl⟩
  · simp at hstep

/-- Every step is one of a worker or one of the pool. -/
theorem step_move {s t : State} {a : Action} (hstep : step s a = some t) :
    (∃ w old new t', s.workers[w]? = some old ∧ WorkerMove s w old new t' ∧
      t = t'.setWorker w new) ∨ s.poolStep a = some t := by
  unfold step at hstep
  split at hstep
  · next w _ =>
      obtain ⟨worker, hworker, hstep⟩ := Option.bind_eq_some_iff.mp hstep
      left
      rcases Option.or_eq_some_iff.mp hstep with hwait | ⟨-, htask⟩
      · obtain ⟨new, t', hmove, ht⟩ := waitStep_move hwait
        exact ⟨w, worker, new, t', hworker, hmove, ht⟩
      · obtain ⟨new, t', hmove, ht⟩ := taskStep_move htask
        exact ⟨w, worker, new, t', hworker, hmove, ht⟩
  · exact .inr hstep

/-! ### The mutex -/

/-- The worker has `cv_mutex`. -/
@[simp] def Worker.holds : Worker → Bool
  | .checking | .unready | .ready => true
  | _ => false

/-- Whoever is at a place with the mutex has it. -/
def MutexInv (s : State) : Prop :=
  ∀ (w : Nat) (worker : Worker), s.workers[w]? = some worker →
    worker.holds = true → s.mutex = some w

/-- Where nobody but `w` can have the mutex, the only holder after a change of
that worker is the worker itself. -/
theorem MutexInv.eq_of_holds {s : State} (hs : MutexInv s) {w : Nat}
    (hmine : s.mutex = none ∨ s.mutex = some w) {new worker : Worker} {v : Nat}
    (hv : (s.workers.set w new)[v]? = some worker) (hholds : worker.holds = true) :
    v = w ∧ worker = new := by
  by_cases heq : w = v
  · subst heq
    have hlt : w < s.workers.length := by
      simpa using (List.getElem?_eq_some_iff.mp hv).1
    rw [List.getElem?_set_self hlt] at hv
    exact ⟨rfl, (Option.some.inj hv).symm⟩
  · rw [List.getElem?_set_ne heq] at hv
    have hmutex := hs v worker hv hholds
    rw [hmutex] at hmine
    simp [Ne.symm heq] at hmine

/-- A worker at a place without the mutex moves on to another such place. -/
theorem MutexInv.getElem?_holds {s : State} (hs : MutexInv s) {w : Nat}
    {new worker : Worker} {v : Nat} (hnew : new.holds = false)
    (hv : (s.workers.set w new)[v]? = some worker) (hholds : worker.holds = true) :
    s.mutex = some v := by
  by_cases heq : w = v
  · subst heq
    have hlt : w < s.workers.length := by
      simpa using (List.getElem?_eq_some_iff.mp hv).1
    rw [List.getElem?_set_self hlt] at hv
    rw [← Option.some.inj hv, hnew] at hholds
    exact Bool.noConfusion hholds
  · rw [List.getElem?_set_ne heq] at hv
    exact hs v worker hv hholds

theorem move_mutex {s t : State} (hs : MutexInv s) {w : Nat} {old new : Worker}
    (hw : s.workers[w]? = some old) (hmove : WorkerMove s w old new t) :
    MutexInv (t.setWorker w new) := by
  intro v worker hv hholds
  rw [State.setWorker, hmove.workers] at hv
  change t.mutex = some v
  have hmine : old.holds = true → s.mutex = none ∨ s.mutex = some w :=
    fun hold => .inr (hs w old hw hold)
  cases hmove with
  | lock hfree | relock hfree =>
      obtain ⟨rfl, -⟩ := hs.eq_of_holds (.inl hfree) hv hholds
      rfl
  | pass _ | fail _ =>
      obtain ⟨rfl, -⟩ := hs.eq_of_holds (hmine rfl) hv hholds
      exact hs v _ hw rfl
  | sleep | exit _ | take _ =>
      obtain ⟨-, rfl⟩ := hs.eq_of_holds (hmine rfl) hv hholds
      simp at hholds
  | wake | start | handled => exact hs.getElem?_holds rfl hv hholds
  | finish _ hnew =>
      refine hs.getElem?_holds ?_ hv hholds
      rcases hnew with rfl | rfl <;> rfl

theorem MutexInv.no_holder {s : State} (hs : MutexInv s) (hfree : s.mutex = none)
    {worker : Worker} (hmem : worker ∈ s.workers) : worker.holds = false := by
  obtain ⟨w, hw⟩ := List.mem_iff_getElem?.mp hmem
  by_contra hholds
  have hmutex := hs w worker hw (by simpa using hholds)
  rw [hfree] at hmutex
  simp at hmutex

theorem mutex_of_isSome {s : State} (hfree : ¬ s.mutex.isSome = true) :
    s.mutex = none := by
  simpa using hfree


theorem wake_holds (worker : Worker) : worker.wake.holds = worker.holds := by
  cases worker <;> rfl

theorem poolStep_mutex {s t : State} {a : Action} (hs : MutexInv s)
    (hstep : s.poolStep a = some t) : MutexInv t := by
  cases a with
  | post =>
      simp only [State.poolStep, State.post] at hstep
      split at hstep
      · simp at hstep
      · split at hstep <;> exact Option.some.inj hstep ▸ hs
  | notifyOne w =>
      cases w with
      | none =>
          simp only [State.poolStep] at hstep
          split at hstep
          · simp at hstep
          · exact Option.some.inj hstep ▸ hs
      | some w =>
          simp only [State.poolStep] at hstep
          split at hstep
          · simp at hstep
          · next hpending =>
              obtain ⟨-, hasleep⟩ := not_or.mp hpending
              obtain rfl := Option.some.inj hstep
              exact move_mutex (t := s) hs (by simpa using hasleep) .wake
  | stop =>
      simp only [State.poolStep, State.stop] at hstep
      split at hstep
      · simp at hstep
      · exact Option.some.inj hstep ▸ hs
  | join =>
      obtain ⟨t, hstop, rfl⟩ := Option.map_eq_some_iff.mp hstep
      simp only [State.stop] at hstop
      split at hstop
      · simp at hstop
      · exact Option.some.inj hstop ▸ hs
  | joinReturns =>
      simp only [State.poolStep] at hstep
      split at hstep
      · simp at hstep
      · exact Option.some.inj hstep ▸ hs
  | notifyAll source =>
      simp only [State.poolStep] at hstep
      split at hstep
      · simp at hstep
      · obtain rfl := Option.some.inj hstep
        intro w worker hw hholds
        rw [List.getElem?_map] at hw
        obtain ⟨old, hold, rfl⟩ := Option.map_eq_some_iff.mp hw
        rw [wake_holds] at hholds
        exact hs w old hold hholds
  | addGuard => exact Option.some.inj hstep ▸ hs
  | removeGuard =>
      simp only [State.poolStep] at hstep
      split at hstep
      · simp at hstep
      · split at hstep <;> exact Option.some.inj hstep ▸ hs
  | _ => simp [State.poolStep] at hstep

theorem start_mutex (threads : Nat) : MutexInv (system threads).start := by
  intro w worker hw
  have heq := List.eq_of_mem_replicate (List.mem_of_getElem? hw)
  simp [heq]

end ThreadPool

end Iocoro
