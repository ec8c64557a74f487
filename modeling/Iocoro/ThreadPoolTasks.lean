/-
The tasks of a `thread_pool`.  Accepted tasks leave the queue in the order in which
they were accepted, each is started once, and when `join` returns all of them have
finished.
-/
import Iocoro.ThreadPool

namespace Iocoro

namespace ThreadPool

/-- The task that a worker has taken and not yet started. -/
@[simp] def Worker.inHand : Worker → List Nat
  | .taken task => [task]
  | _ => []

/-- The task that a worker runs. -/
@[simp] def Worker.runs : Worker → List Nat
  | .inTask task => [task]
  | _ => []

structure TaskInv (s : State) : Prop where
  mutex : MutexInv s
  order : s.accepted = s.dequeued ++ s.queue
  numbered : (s.accepted ++ s.dropped).Nodup
  known : ∀ task ∈ s.accepted ++ s.dropped, task < s.posts
  started : ∀ task, s.dequeued.count task =
    Inventory.held Worker.inHand s.workers task + s.started.count task
  finished : ∀ task, s.started.count task =
    Inventory.held Worker.runs s.workers task + s.finished.count task
  ready : .ready ∈ s.workers → s.queue = [] → s.state ≠ .running
  exited : .exited ∈ s.workers → s.state ≠ .running ∧ s.queue = []
  stopped : s.state = .stopped → ∀ worker ∈ s.workers, worker = .exited
  joined : s.joined = true → s.state = .stopped
  single : s.workers.length = 1 →
    s.started ++ s.workers.flatMap Worker.inHand = s.dequeued

theorem WorkerMove.state {s t : State} {w : Nat} {old new : Worker}
    (h : WorkerMove s w old new t) : t.state = s.state := by
  cases h <;> rfl

theorem ne_running_of_drained {s : State} (hdrained : s.drained = true) :
    s.state ≠ .running := by
  intro hrunning
  simp [State.drained, hrunning] at hdrained

/-! ### Steps of a worker -/

theorem move_order {s t : State} (hs : TaskInv s) {w : Nat} {old new : Worker}
    (hmove : WorkerMove s w old new t) : t.accepted = t.dequeued ++ t.queue := by
  have horder := hs.order
  cases hmove with
  | take hqueue => simpa [hqueue] using horder
  | _ => exact horder

theorem move_started {s t : State} (hs : TaskInv s) {w : Nat} {old new : Worker}
    (hw : s.workers[w]? = some old) (hmove : WorkerMove s w old new t)
    (task : Nat) : t.dequeued.count task =
      Inventory.held Worker.inHand (s.workers.set w new) task +
        t.started.count task := by
  have hold := hs.started task
  have hset := Inventory.held_set_of_getElem? Worker.inHand hw new task
  cases hmove with
  | finish _ hnew =>
      rcases hnew with rfl | rfl
      all_goals
        simp only [Worker.inHand, List.count_nil] at hset
        dsimp only
        omega
  | _ =>
      simp only [Worker.inHand, List.count_nil, List.count_append] at hset ⊢
      omega

theorem move_finished {s t : State} (hs : TaskInv s) {w : Nat} {old new : Worker}
    (hw : s.workers[w]? = some old) (hmove : WorkerMove s w old new t)
    (task : Nat) : t.started.count task =
      Inventory.held Worker.runs (s.workers.set w new) task +
        t.finished.count task := by
  have hold := hs.finished task
  have hset := Inventory.held_set_of_getElem? Worker.runs hw new task
  cases hmove with
  | finish _ hnew =>
      rcases hnew with rfl | rfl
      all_goals
        simp only [Worker.runs, List.count_nil, List.count_append] at hset ⊢
        omega
  | _ =>
      simp only [Worker.runs, List.count_nil, List.count_append] at hset ⊢
      omega

theorem move_leaves {s t : State} (hs : TaskInv s) {w : Nat} {old new : Worker}
    (hw : s.workers[w]? = some old) (hmove : WorkerMove s w old new t)
    (hmem : Worker.ready ∈ s.workers.set w new) (hqueue : t.queue = []) :
    t.state ≠ .running := by
  rw [hmove.state]
  rcases List.mem_or_eq_of_mem_set hmem with hold | rfl
  · cases hmove with
    | take hcons =>
        obtain ⟨v, hv⟩ := List.mem_iff_getElem?.mp hmem
        have hmine := hs.mutex w _ hw rfl
        obtain ⟨-, heq⟩ := hs.mutex.eq_of_holds (.inr hmine) hv rfl
        simp at heq
    | _ => exact hs.ready hold hqueue
  · cases hmove with
    | pass htrue =>
        apply ne_running_of_drained
        simpa [State.predicate, hqueue] using htrue
    | finish _ hnew => simp at hnew

theorem move_exited {s t : State} (hs : TaskInv s) {w : Nat} {old new : Worker}
    (hw : s.workers[w]? = some old) (hmove : WorkerMove s w old new t)
    (hmem : Worker.exited ∈ s.workers.set w new) :
    t.state ≠ .running ∧ t.queue = [] := by
  rw [hmove.state]
  rcases List.mem_or_eq_of_mem_set hmem with hold | rfl
  · obtain ⟨hstate, hqueue⟩ := hs.exited hold
    refine ⟨hstate, ?_⟩
    cases hmove with
    | take hcons => simp [hqueue] at hcons
    | _ => exact hqueue
  · cases hmove with
    | exit hqueue => exact ⟨hs.ready (List.mem_of_getElem? hw) hqueue, hqueue⟩
    | finish _ hnew => simp at hnew

/-- With one worker, tasks are started in the order in which they leave the
queue. -/
theorem move_single {s t : State} (hs : TaskInv s) {w : Nat} {old new : Worker}
    (hw : s.workers[w]? = some old) (hmove : WorkerMove s w old new t)
    (hone : s.workers.length = 1) :
    t.started ++ (s.workers.set w new).flatMap Worker.inHand = t.dequeued := by
  obtain ⟨only, honly⟩ := List.length_eq_one_iff.mp hone
  have hw0 : w = 0 := by
    have hlt := (List.getElem?_eq_some_iff.mp hw).1
    omega
  subst hw0
  have hold := hs.single hone
  rw [honly] at hw hold ⊢
  obtain rfl : only = old := by simpa using hw
  cases hmove with
  | finish _ hnew => rcases hnew with rfl | rfl <;> simpa using hold
  | start => simpa using hold
  | take _ => simpa using hold
  | _ => simpa using hold

theorem move_tasks {s t : State} (hs : TaskInv s) {w : Nat} {old new : Worker}
    (hw : s.workers[w]? = some old) (hmove : WorkerMove s w old new t) :
    TaskInv (t.setWorker w new) := by
  have hworkers : (t.setWorker w new).workers = s.workers.set w new := by
    rw [State.setWorker, hmove.workers]
  constructor
  · exact move_mutex hs.mutex hw hmove
  · exact move_order (t := t) hs hmove
  · cases hmove <;> exact hs.numbered
  · cases hmove <;> exact hs.known
  · rw [hworkers]
    exact move_started (t := t) hs hw hmove
  · rw [hworkers]
    exact move_finished (t := t) hs hw hmove
  · rw [hworkers]
    exact move_leaves (t := t) hs hw hmove
  · rw [hworkers]
    exact move_exited (t := t) hs hw hmove
  · intro hstopped
    have hstate : s.state = .stopped := by rw [← hmove.state]; exact hstopped
    obtain rfl := hs.stopped hstate old (List.mem_of_getElem? hw)
    cases hmove
  · cases hmove <;> exact hs.joined
  · rw [hworkers, List.length_set]
    exact move_single (t := t) hs hw hmove

/-! ### Steps of the pool -/

theorem post_tasks {s t : State} (hs : TaskInv s) (hstep : s.post = some t) :
    TaskInv t := by
  have hnew : s.posts ∉ s.accepted ++ s.dropped := fun hmem =>
    Nat.lt_irrefl _ (hs.known _ hmem)
  have hknown : ∀ task ∈ s.accepted ++ s.dropped, task < s.posts + 1 :=
    fun task hmem => Nat.lt_succ_of_lt (hs.known task hmem)
  unfold State.post at hstep
  split at hstep
  · simp at hstep
  · split at hstep
    · next hrunning =>
        obtain rfl := Option.some.inj hstep
        have hperm : (s.accepted ++ [s.posts] ++ s.dropped).Perm
            (s.posts :: (s.accepted ++ s.dropped)) := by
          rw [List.append_assoc]
          exact List.perm_middle
        exact { hs with
          order := by simp [hs.order]
          numbered := hperm.nodup_iff.mpr
            (List.nodup_cons.mpr ⟨hnew, hs.numbered⟩)
          known := by
            intro task hmem
            rcases List.mem_cons.mp (hperm.mem_iff.mp hmem) with rfl | hold
            · exact Nat.lt_succ_self _
            · exact hknown task hold
          ready := by simp
          exited := fun hmem => absurd hrunning (hs.exited hmem).1 }
    · obtain rfl := Option.some.inj hstep
      have hperm : (s.accepted ++ (s.dropped ++ [s.posts])).Perm
          (s.posts :: (s.accepted ++ s.dropped)) := by
        rw [← List.append_assoc]
        exact List.perm_append_singleton _ _
      exact { hs with
        numbered := hperm.nodup_iff.mpr
          (List.nodup_cons.mpr ⟨hnew, hs.numbered⟩)
        known := by
          intro task hmem
          rcases List.mem_cons.mp (hperm.mem_iff.mp hmem) with rfl | hold
          · exact Nat.lt_succ_self _
          · exact hknown task hold }

theorem drain_ne_running (state : PoolState) : state.drain ≠ .running := by
  cases state <;> simp [PoolState.drain]

theorem drain_eq_stopped {state : PoolState} :
    state.drain = .stopped ↔ state = .stopped := by
  cases state <;> simp [PoolState.drain]

theorem stop_tasks {s t : State} (hs : TaskInv s) (hstep : s.stop = some t) :
    TaskInv t := by
  unfold State.stop at hstep
  split at hstep
  · simp at hstep
  · obtain rfl := Option.some.inj hstep
    exact { hs with
      ready := fun _ _ => drain_ne_running _
      exited := fun hmem => ⟨drain_ne_running _, (hs.exited hmem).2⟩
      stopped := fun hstopped => hs.stopped (drain_eq_stopped.mp hstopped)
      joined := fun hjoined => drain_eq_stopped.mpr (hs.joined hjoined) }

/-- A notification changes nobody's task. -/
theorem notifyAll_tasks {s : State} (hs : TaskInv s)
    (hmutex : MutexInv { s with workers := s.workers.map Worker.wake }) :
    TaskInv { s with workers := s.workers.map Worker.wake } := by
  have hhand : ∀ task, Inventory.held Worker.inHand (s.workers.map Worker.wake)
      task = Inventory.held Worker.inHand s.workers task := by
    intro task
    rw [Inventory.held, List.flatMap_map, Inventory.held]
    congr 2
    funext worker
    cases worker <;> rfl
  have hruns : ∀ task, Inventory.held Worker.runs (s.workers.map Worker.wake)
      task = Inventory.held Worker.runs s.workers task := by
    intro task
    rw [Inventory.held, List.flatMap_map, Inventory.held]
    congr 2
    funext worker
    cases worker <;> rfl
  have hplace : ∀ place : Worker, place ≠ .woken →
      place ∈ s.workers.map Worker.wake → place ∈ s.workers := by
    intro place hne hmem
    obtain ⟨old, hold, heq⟩ := List.mem_map.mp hmem
    have hsame : old = place := by
      cases old <;> simp_all [Worker.wake]
    exact hsame ▸ hold
  exact { hs with
    mutex := hmutex
    started := fun task => (hs.started task).trans (by rw [hhand])
    finished := fun task => (hs.finished task).trans (by rw [hruns])
    ready := fun hmem => hs.ready (hplace _ (by simp) hmem)
    exited := fun hmem => hs.exited (hplace _ (by simp) hmem)
    stopped := by
      intro hstopped worker hmem
      obtain ⟨old, hold, rfl⟩ := List.mem_map.mp hmem
      rw [hs.stopped hstopped old hold]
      rfl
    single := by
      intro hone
      rw [List.length_map] at hone
      rw [List.flatMap_map, ← hs.single hone]
      congr 2
      funext worker
      cases worker <;> rfl }

theorem poolStep_tasks {s t : State} {a : Action} (hs : TaskInv s)
    (hstep : s.poolStep a = some t) : TaskInv t := by
  have hmutex := poolStep_mutex hs.mutex hstep
  cases a with
  | post => exact post_tasks hs hstep
  | notifyOne w =>
      cases w with
      | none =>
          simp only [State.poolStep] at hstep
          split at hstep
          · simp at hstep
          · obtain rfl := Option.some.inj hstep
            exact { hs with }
      | some w =>
          simp only [State.poolStep] at hstep
          split at hstep
          · simp at hstep
          · next hpending =>
              obtain ⟨-, hasleep⟩ := not_or.mp hpending
              obtain rfl := Option.some.inj hstep
              exact { move_tasks (t := s) (w := w) hs (by simpa using hasleep)
                .wake with }
  | stop => exact stop_tasks hs hstep
  | join =>
      obtain ⟨t, hstop, rfl⟩ := Option.map_eq_some_iff.mp hstep
      exact { stop_tasks hs hstop with }
  | joinReturns =>
      simp only [State.poolStep] at hstep
      split at hstep
      · simp at hstep
      · next hall =>
          obtain rfl := Option.some.inj hstep
          simp only [ne_eq, not_or, not_exists, not_and, not_not] at hall
          exact { hs with
            ready := by simp
            exited := fun hmem => ⟨by simp, (hs.exited hmem).2⟩
            stopped := fun _ => hall.2
            joined := fun _ => rfl }
  | notifyAll source =>
      simp only [State.poolStep] at hstep
      split at hstep
      · simp at hstep
      · obtain rfl := Option.some.inj hstep
        exact { notifyAll_tasks hs hmutex with }
  | addGuard =>
      obtain rfl := Option.some.inj hstep
      exact { hs with }
  | removeGuard =>
      simp only [State.poolStep] at hstep
      split at hstep
      · simp at hstep
      · split at hstep
        · obtain rfl := Option.some.inj hstep
          exact { hs with }
        · obtain rfl := Option.some.inj hstep
          exact { hs with }
  | _ => simp [State.poolStep] at hstep

theorem step_tasks {s t : State} {a : Action} (hs : TaskInv s)
    (hstep : step s a = some t) : TaskInv t := by
  rcases step_move hstep with ⟨w, old, new, t', hw, hmove, rfl⟩ | hpool
  · exact move_tasks hs hw hmove
  · exact poolStep_tasks hs hpool

theorem start_tasks (threads : Nat) : TaskInv (system threads).start where
  mutex := start_mutex threads
  order := rfl
  numbered := by simp [system]
  known := by simp [system]
  started := fun task => (Inventory.held_replicate_of_nil _ rfl _ task).symm
  finished := fun task => (Inventory.held_replicate_of_nil _ rfl _ task).symm
  ready := by simp [system]
  exited := by simp [system]
  stopped := by simp [system]
  joined := by simp [system]
  single := by simp [system]

/-! ### Every accepted task runs once -/

/-- Once the pool is not running, it never runs again and accepts nothing. -/
theorem step_closed {s t : State} {a : Action} (hclosed : s.state ≠ .running)
    (hstep : step s a = some t) :
    t.state ≠ .running ∧ t.accepted = s.accepted := by
  rcases step_move hstep with ⟨w, old, new, t', hw, hmove, rfl⟩ | hpool
  · constructor
    · change t'.state ≠ .running
      rw [hmove.state]
      exact hclosed
    · cases hmove <;> rfl
  · cases a with
    | post =>
        simp only [State.poolStep, State.post, hclosed] at hpool
        split at hpool
        · simp at hpool
        · obtain rfl := Option.some.inj hpool
          exact ⟨hclosed, rfl⟩
    | notifyOne w =>
        cases w <;>
        · simp only [State.poolStep] at hpool
          split at hpool
          · simp at hpool
          · obtain rfl := Option.some.inj hpool
            exact ⟨hclosed, rfl⟩
    | stop =>
        simp only [State.poolStep, State.stop] at hpool
        split at hpool
        · simp at hpool
        · obtain rfl := Option.some.inj hpool
          exact ⟨drain_ne_running _, rfl⟩
    | join =>
        obtain ⟨t, hstop, rfl⟩ := Option.map_eq_some_iff.mp hpool
        simp only [State.stop] at hstop
        split at hstop
        · simp at hstop
        · obtain rfl := Option.some.inj hstop
          exact ⟨drain_ne_running _, rfl⟩
    | joinReturns =>
        simp only [State.poolStep] at hpool
        split at hpool
        · simp at hpool
        · obtain rfl := Option.some.inj hpool
          exact ⟨by simp, rfl⟩
    | notifyAll source =>
        simp only [State.poolStep] at hpool
        split at hpool
        · simp at hpool
        · obtain rfl := Option.some.inj hpool
          exact ⟨hclosed, rfl⟩
    | addGuard =>
        obtain rfl := Option.some.inj hpool
        exact ⟨hclosed, rfl⟩
    | removeGuard =>
        simp only [State.poolStep] at hpool
        split at hpool
        · simp at hpool
        · split at hpool <;> exact Option.some.inj hpool ▸ ⟨hclosed, rfl⟩
    | _ => simp [State.poolStep] at hpool

/-- The threads of a pool are those it was made with. -/
theorem step_length {s t : State} {a : Action} (hstep : step s a = some t) :
    t.workers.length = s.workers.length := by
  rcases step_move hstep with ⟨w, old, new, t', hw, hmove, rfl⟩ | hpool
  · rw [State.setWorker, List.length_set, hmove.workers]
  · cases a with
    | notifyOne w =>
        cases w <;>
        · simp only [State.poolStep] at hpool
          split at hpool
          · simp at hpool
          · obtain rfl := Option.some.inj hpool
            simp [State.setWorker]
    | join =>
        obtain ⟨t, hstop, rfl⟩ := Option.map_eq_some_iff.mp hpool
        simp only [State.stop] at hstop
        split at hstop
        · simp at hstop
        · obtain rfl := Option.some.inj hstop
          rfl
    | addGuard =>
        obtain rfl := Option.some.inj hpool
        rfl
    | post | removeGuard =>
        simp only [State.poolStep, State.post] at hpool
        split at hpool
        · simp at hpool
        · split at hpool <;> exact Option.some.inj hpool ▸ rfl
    | stop | joinReturns =>
        simp only [State.poolStep, State.stop] at hpool
        split at hpool
        · simp at hpool
        · obtain rfl := Option.some.inj hpool
          rfl
    | notifyAll source =>
        simp only [State.poolStep] at hpool
        split at hpool
        · simp at hpool
        · obtain rfl := Option.some.inj hpool
          simp
    | _ => simp [State.poolStep] at hpool

theorem reachable_length {threads : Nat} {s : State}
    (hs : (system threads).Reachable s) : s.workers.length = threads := by
  induction hs with
  | start => exact List.length_replicate
  | step _ _ hstep ih => exact (step_length hstep).trans ih

/-- Accepted tasks leave the queue in the order in which they were accepted, each
is started at most once, by one worker in that order; after `stop` nothing is
accepted, and what is refused is never started; and when `join` has returned,
every accepted task was started and has finished, and all workers have exited. -/
structure RunsOnce (s : State) : Prop where
  order : s.dequeued <+: s.accepted
  once : s.started.Nodup
  taken : ∀ task ∈ s.started, task ∈ s.dequeued
  single : s.workers.length = 1 → s.started <+: s.accepted
  stops : ∀ t, step s .stop = some t → t.state ≠ .running
  closed : s.state ≠ .running → ∀ a t, step s a = some t →
    t.state ≠ .running ∧ t.accepted = s.accepted
  refused : ∀ task ∈ s.dropped, task ∉ s.started
  joined : s.joined = true → s.queue = [] ∧ s.started.Perm s.accepted ∧
    s.finished.Perm s.accepted ∧ ∀ worker ∈ s.workers, worker = .exited

theorem TaskInv.mem_dequeued {s : State} (hs : TaskInv s) {task : Nat}
    (htask : task ∈ s.started) : task ∈ s.dequeued := by
  have hcount := hs.started task
  have hpos := List.count_pos_iff.mpr htask
  exact List.count_pos_iff.mp (by omega)

theorem TaskInv.joined_spec {s : State} (hs : TaskInv s)
    (hthreads : 0 < s.workers.length) (hjoined : s.joined = true) :
    s.queue = [] ∧ s.started.Perm s.accepted ∧ s.finished.Perm s.accepted ∧
      ∀ worker ∈ s.workers, worker = .exited := by
  have hexited := hs.stopped (hs.joined hjoined)
  obtain ⟨worker, hworker⟩ := List.exists_mem_of_length_pos hthreads
  have hqueue := (hs.exited (hexited worker hworker ▸ hworker)).2
  have hhand : ∀ task, Inventory.held Worker.inHand s.workers task = 0 :=
    Inventory.held_eq_zero _ fun worker hmem => by simp [hexited worker hmem]
  have hruns : ∀ task, Inventory.held Worker.runs s.workers task = 0 :=
    Inventory.held_eq_zero _ fun worker hmem => by simp [hexited worker hmem]
  have haccepted : s.accepted = s.dequeued := by simpa [hqueue] using hs.order
  have hstarted : s.started.Perm s.accepted := by
    rw [List.perm_iff_count, haccepted]
    intro task
    rw [hs.started task, hhand task, Nat.zero_add]
  have hfinished : s.finished.Perm s.started := by
    rw [List.perm_iff_count]
    intro task
    rw [hs.finished task, hruns task, Nat.zero_add]
  exact ⟨hqueue, hstarted, hfinished.trans hstarted, hexited⟩

theorem TaskInv.runsOnce {s : State} (hs : TaskInv s)
    (hthreads : 0 < s.workers.length) : RunsOnce s where
  order := ⟨s.queue, hs.order.symm⟩
  once := by
    have hdequeued : s.dequeued.Nodup := by
      have hnodup := (List.nodup_append.mp hs.numbered).1
      rw [hs.order] at hnodup
      exact (List.nodup_append.mp hnodup).1
    rw [List.nodup_iff_count] at hdequeued ⊢
    intro task
    have hcount := hs.started task
    have hone := hdequeued task
    omega
  taken := fun task => hs.mem_dequeued
  single := by
    intro hone
    refine ⟨s.workers.flatMap Worker.inHand ++ s.queue, ?_⟩
    rw [← List.append_assoc, hs.single hone, hs.order]
  stops := by
    intro t hstep
    change s.stop = some t at hstep
    unfold State.stop at hstep
    split at hstep
    · simp at hstep
    · obtain rfl := Option.some.inj hstep
      exact drain_ne_running _
  closed := fun hclosed a t hstep => step_closed hclosed hstep
  refused := by
    intro task hdropped hstarted
    have haccepted : task ∈ s.accepted := by
      rw [hs.order]
      exact List.mem_append_left _ (hs.mem_dequeued hstarted)
    exact (List.nodup_append.mp hs.numbered).2.2 task haccepted task hdropped rfl
  joined := hs.joined_spec hthreads

/-- In every run of a pool, every accepted task runs once. -/
theorem reachable_runsOnce (threads : Nat) (hthreads : 0 < threads) (s : State)
    (hs : (system threads).Reachable s) : RunsOnce s := by
  have htasks : TaskInv s :=
    hs.invariant (start_tasks threads) fun _ _ _ hinv hstep => step_tasks hinv hstep
  exact htasks.runsOnce (reachable_length hs ▸ hthreads)

/-- One of two tasks throws, a third one comes after `stop`, and `join`
returns. -/
theorem reachable_runsOnce_thrown :
    0 < 2 ∧ ∃ s, (system 2).Reachable s ∧ s.joined = true ∧
      s.accepted = [0, 1] ∧ s.dropped = [2] ∧ RunsOnce s := by
  obtain ⟨s, hs, hp⟩ := TransitionSystem.exists_reachable_of_exec (system 2)
    [.post, .lock 0, .evaluate 0, .leave 0, .startTask 0, .post,
      .throwTask 0 true, .handlerEnds 0 true, .lock 1, .evaluate 1, .leave 1,
      .lock 0, .evaluate 0, .sleep 0, .join, .post, .notifyAll .stop,
      .relock 0, .evaluate 0, .leave 0, .startTask 1, .finishTask 1, .lock 1,
      .evaluate 1, .leave 1, .joinReturns]
    (fun s => s.joined ∧ s.accepted = [0, 1] ∧ s.dropped = [2]) (by decide)
  obtain ⟨hjoined, haccepted, hdropped⟩ := of_decide_eq_true hp
  exact ⟨by decide, s, hs, hjoined, haccepted, hdropped,
    reachable_runsOnce 2 (by decide) s hs⟩

/-- Two workers start their tasks in the other order. -/
theorem started_outOfOrder : ¬ ∀ threads, 0 < threads →
    ∀ s, (system threads).Reachable s → s.started <+: s.accepted := by
  intro hall
  obtain ⟨s, hs, hp⟩ := TransitionSystem.exists_reachable_of_exec (system 2)
    [.post, .post, .lock 0, .evaluate 0, .leave 0, .lock 1, .evaluate 1,
      .leave 1, .startTask 1, .startTask 0]
    (fun s => s.accepted = [0, 1] ∧ s.started = [1, 0]) (by decide)
  obtain ⟨haccepted, hstarted⟩ := of_decide_eq_true hp
  have horder := hall 2 (by decide) s hs
  rw [haccepted, hstarted] at horder
  exact absurd horder (by decide)

end ThreadPool

end Iocoro
