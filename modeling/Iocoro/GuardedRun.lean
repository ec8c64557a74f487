/-
`io_context_impl::run` against threads that post under a work guard.  `has_work` is
four reads one after the other, and `post` pushes and counts its task in two steps
under the mutex of the queue.
-/
import Iocoro.TransitionSystem
import Iocoro.PostedQueue
import Iocoro.Inventory
import Mathlib.Data.List.Basic

namespace Iocoro

namespace GuardedRun

/-- The three `is_stopped() || !has_work()` tests of one iteration. -/
inductive Check where
  | first
  | second
  | third
deriving DecidableEq, Repr

/-- The reads of a test in their order. -/
inductive Read where
  | stopped
  | guards
  | posted
  | timers
  | fds
deriving DecidableEq, Repr

/-- Who called `process_posted`: an iteration of `run`, or the clean-up after a
failed backend wait. -/
inductive Drain where
  | loop
  | failure
deriving DecidableEq, Repr

/-- Where the thread in `run` stands.  `outside` is also where an exception of user
code leads. -/
inductive Reactor where
  | outside
  | check (test : Check) (read : Read)
  | swap (drain : Drain)
  | batch (drain : Drain) (rest : List Nat)
  | inTask (drain : Drain) (task : Nat) (rest : List Nat)
  | timers
  | wait
  | events
  | cleanUp
  | look
  | returned
deriving DecidableEq, Repr

/-- A thread with its guard and the tasks posted while it had it.  `before` says
that the guard is older than the call of `run`, and `sampled` that `run` has read
the guard count since the guard was acquired. -/
structure Poster where
  holds : Bool
  posted : List Nat := []
  before : Bool := false
  sampled : Bool := false
deriving DecidableEq, Repr

/-- `mutex` is the mutex of the queue with the poster and the task it has pushed
and not counted.  `stopSet` says that `stopped_` was set since `run` was called. -/
structure State where
  stopped : Bool := false
  stopSet : Bool := false
  guards : Nat := 0
  posted : PostedQueue Nat := {}
  mutex : Option (Nat × Nat) := none
  timers : Nat := 0
  fds : Nat := 0
  reactor : Reactor := .outside
  next : Nat := 0
  executed : List Nat := []
  posters : List Poster := []
deriving DecidableEq, Repr

inductive Action where
  | join (guarded : Bool)
  | push (poster : Nat)
  | count (poster : Nat)
  | release (poster : Nat)
  | setTimers (timers : Nat)
  | setFds (fds : Nat)
  | stop
  | restart
  | enter
  | advance (fails : Bool)
deriving DecidableEq, Repr

/-- Where a test that finds work leads. -/
def Check.next : Check → Reactor
  | .first => .swap .loop
  | .second => .timers
  | .third => .wait

def Drain.next : Drain → Reactor
  | .loop => .check .second .stopped
  | .failure => .look

/-- Where an exception of a task leads; the clean-up swallows it. -/
def Drain.thrown : Drain → Reactor
  | .loop => .outside
  | .failure => .look

/-- A read of `has_work`: found work, or the next read. -/
def State.readWork (s : State) (found : Bool) (test : Check) (next : Reactor) :
    State :=
  { s with reactor := if found then test.next else next }

/-- The next step of `run`.  `fails` says that user code throws, or that the
backend wait does. -/
def State.advance (s : State) (fails : Bool) : Option State :=
  match s.reactor with
  | .outside | .returned => none
  | .check test .stopped =>
      some { s with
        reactor := if s.stopped then .returned else .check test .guards }
  | .check test .guards =>
      some (State.readWork
        { s with posters := s.posters.map fun p => { p with sampled := true } }
        (decide (0 < s.guards)) test (.check test .posted))
  | .check test .posted =>
      some (s.readWork s.posted.hasPendingTasks test (.check test .timers))
  | .check test .timers =>
      some (s.readWork (decide (0 < s.timers)) test (.check test .fds))
  | .check test .fds =>
      some (s.readWork (decide (0 < s.fds)) test .returned)
  | .swap drain =>
      if s.mutex.isSome then none
      else some { s with
        reactor := .batch drain s.posted.swap.1, posted := s.posted.swap.2 }
  | .batch drain [] => some { s with reactor := drain.next }
  | .batch drain (task :: rest) =>
      some { s with reactor := .inTask drain task rest, posted := s.posted.take }
  | .inTask drain task rest =>
      if fails then
        if s.mutex.isSome then none
        else some { s with
          reactor := drain.thrown
          posted := s.posted.restore rest
          executed := s.executed ++ [task] }
      else some { s with
        reactor := .batch drain rest, executed := s.executed ++ [task] }
  | .timers =>
      some { s with reactor := if fails then .outside else .check .third .stopped }
  | .wait =>
      if fails then
        some { s with stopped := true, stopSet := true, reactor := .cleanUp }
      else some { s with reactor := .events }
  | .events =>
      some { s with reactor := if fails then .outside else .check .first .stopped }
  | .cleanUp => some { s with reactor := .look }
  | .look =>
      some { s with
        reactor := if s.posted.hasPendingTasks then .swap .failure
          else .check .first .stopped }

/-- `run` is called. -/
def State.enter (s : State) : State :=
  { s with
    reactor := .check .first .stopped
    stopSet := s.stopped
    posters := s.posters.map fun p => { p with before := true } }

def step (s : State) : Action → Option State
  | .join guarded => some { s with
      guards := if guarded then s.guards + 1 else s.guards
      posters := s.posters ++ [{ holds := guarded }] }
  | .push i => s.posters[i]?.bind fun _ =>
      if s.mutex.isSome then none
      else some { s with
        posted := s.posted.push s.next
        mutex := some (i, s.next)
        next := s.next + 1 }
  | .count i => s.posters[i]?.bind fun p =>
      match s.mutex with
      | some (owner, task) =>
          if owner = i then
            let posted := if p.holds then p.posted ++ [task] else p.posted
            some { s with
              posted := s.posted.count
              mutex := none
              posters := s.posters.set i { p with posted } }
          else none
      | none => none
  | .release i => s.posters[i]?.bind fun p =>
      if p.holds = true ∧ s.mutex.map Prod.fst ≠ some i then
        some { s with
          guards := s.guards - 1
          posters := s.posters.set i { p with holds := false } }
      else none
  | .setTimers timers => some { s with timers }
  | .setFds fds => some { s with fds }
  | .stop => some { s with stopped := true, stopSet := true }
  | .restart => some { s with stopped := false }
  | .enter =>
      if s.reactor = .outside ∨ s.reactor = .returned then some s.enter else none
  | .advance fails => s.advance fails

def system : TransitionSystem State Action where
  start := {}
  step := step

/-! ### Where a posted task is -/

/-- The tasks `process` has swapped out and not taken. -/
@[simp] def Reactor.rest : Reactor → List Nat
  | .batch _ rest | .inTask _ _ rest => rest
  | _ => []

/-- The task being executed and those behind it. -/
@[simp] def Reactor.tasks : Reactor → List Nat
  | .batch _ rest => rest
  | .inTask _ task rest => task :: rest
  | _ => []

/-- The queue as of the posts that have counted their task. -/
def State.settled (s : State) : PostedQueue Nat :=
  if s.mutex.isSome then { s.posted with queue := s.posted.queue.dropLast }
  else s.posted

/-- `run` has read a guard count of zero and found no work since, or has returned
so. -/
@[simp] def State.unguarded (s : State) : Bool :=
  match s.reactor with
  | .check _ .posted | .check _ .timers | .check _ .fds => true
  | .returned => !s.stopSet
  | _ => false

/-- After that, `run` has read a posted count of zero. -/
@[simp] def State.drained (s : State) : Bool :=
  match s.reactor with
  | .check _ .timers | .check _ .fds => true
  | .returned => !s.stopSet
  | _ => false

structure Inv (s : State) : Prop where
  guards : s.guards = s.posters.countP Poster.holds
  counts : s.settled.Counts s.reactor.rest
  pushed : ∀ i task, s.mutex = some (i, task) →
    s.posted.queue.getLast? = some task
  kept : ∀ p ∈ s.posters, ∀ task ∈ p.posted, task ∈ s.settled.queue ∨
    task ∈ s.reactor.tasks ∨ task ∈ s.executed
  quiet : s.stopSet = false → s.stopped = false
  sampled : s.unguarded = true → ∀ p ∈ s.posters, p.before = true →
    p.sampled = true
  released : s.unguarded = true → ∀ p ∈ s.posters, p.sampled = true →
    p.holds = false
  drained : s.drained = true → ∀ p ∈ s.posters, p.sampled = true →
    ∀ task ∈ p.posted, task ∈ s.executed

theorem State.unguarded_of_drained {s : State} (h : s.drained = true) :
    s.unguarded = true := by
  cases hreactor : s.reactor with
  | check test read => cases read <;> simp_all
  | _ => simp_all

theorem State.settled_of_free {s : State} (hfree : ¬ s.mutex.isSome = true) :
    s.settled = s.posted := by
  simp [State.settled, hfree]

/-! ### The steps of `run` -/

/-- Places of `run` outside its tests of `has_work` and away from a batch. -/
@[simp] def Reactor.plain : Reactor → Bool
  | .check _ .posted | .check _ .timers | .check _ .fds => false
  | .batch _ _ | .inTask _ _ _ | .returned => false
  | _ => true

theorem Check.next_plain (test : Check) : test.next.plain = true := by
  cases test <;> rfl

theorem Drain.next_plain (drain : Drain) : drain.next.plain = true := by
  cases drain <;> rfl

theorem Drain.thrown_plain (drain : Drain) : drain.thrown.plain = true := by
  cases drain <;> rfl

theorem Reactor.rest_of_plain {reactor : Reactor} (h : reactor.plain = true) :
    reactor.rest = [] := by
  cases reactor <;> simp_all

theorem Reactor.tasks_of_plain {reactor : Reactor} (h : reactor.plain = true) :
    reactor.tasks = [] := by
  cases reactor <;> simp_all

theorem State.unguarded_of_plain {s : State} (h : s.reactor.plain = true) :
    s.unguarded = false := by
  cases hreactor : s.reactor with
  | check test read => cases read <;> simp_all
  | _ => simp_all

/-- Where nothing is promised about the guards. -/
theorem Inv.of_guarded {t : State} (hguarded : t.unguarded = false)
    (hguards : t.guards = t.posters.countP Poster.holds)
    (hcounts : t.settled.Counts t.reactor.rest)
    (hpushed : ∀ i task, t.mutex = some (i, task) →
      t.posted.queue.getLast? = some task)
    (hkept : ∀ p ∈ t.posters, ∀ task ∈ p.posted, task ∈ t.settled.queue ∨
      task ∈ t.reactor.tasks ∨ task ∈ t.executed)
    (hquiet : t.stopSet = false → t.stopped = false) : Inv t where
  guards := hguards
  counts := hcounts
  pushed := hpushed
  kept := hkept
  quiet := hquiet
  sampled h := Bool.noConfusion (hguarded.symm.trans h)
  released h := Bool.noConfusion (hguarded.symm.trans h)
  drained h :=
    Bool.noConfusion (hguarded.symm.trans (State.unguarded_of_drained h))

/-- `run` moves on with an empty batch. -/
theorem Inv.toPlain {s : State} (hs : Inv s) (reactor : Reactor)
    (stopped stopSet : Bool) (hplain : reactor.plain = true)
    (htasks : s.reactor.tasks = [])
    (hquiet : stopSet = false → stopped = false) :
    Inv { s with reactor, stopped, stopSet } := by
  have hrest : s.reactor.rest = [] := by
    cases hreactor : s.reactor <;> simp_all
  apply Inv.of_guarded
  · exact State.unguarded_of_plain hplain
  · exact hs.guards
  · change s.settled.Counts reactor.rest
    rw [Reactor.rest_of_plain hplain, ← hrest]
    exact hs.counts
  · exact hs.pushed
  · intro p hp task htask
    change task ∈ s.settled.queue ∨ task ∈ reactor.tasks ∨ task ∈ s.executed
    rw [Reactor.tasks_of_plain hplain, ← htasks]
    exact hs.kept p hp task htask
  · exact hquiet

/-- `run` reads the guard count. -/
theorem readGuards_inv {s : State} (hs : Inv s) {test : Check}
    (hreactor : s.reactor = .check test .guards) :
    Inv (State.readWork
      { s with posters := s.posters.map fun p => { p with sampled := true } }
      (decide (0 < s.guards)) test (.check test .posted)) := by
  have hguards : s.guards =
      (s.posters.map fun p => { p with sampled := true }).countP Poster.holds := by
    rw [List.countP_map, hs.guards]
    rfl
  have hkept : ∀ p ∈ s.posters.map fun p => { p with sampled := true },
      ∀ task ∈ p.posted, task ∈ s.settled.queue ∨ task ∈ s.reactor.tasks ∨
        task ∈ s.executed := by
    intro p hp task htask
    obtain ⟨old, hold, rfl⟩ := List.mem_map.mp hp
    exact hs.kept old hold task htask
  have hcounts := hs.counts
  rw [hreactor] at hkept hcounts
  unfold State.readWork
  by_cases hfound : 0 < s.guards
  · rw [if_pos (decide_eq_true hfound)]
    apply Inv.of_guarded (State.unguarded_of_plain test.next_plain) hguards
    · rw [Reactor.rest_of_plain test.next_plain]
      exact hcounts
    · exact hs.pushed
    · rw [Reactor.tasks_of_plain test.next_plain]
      exact hkept
    · exact hs.quiet
  · rw [if_neg (by simpa using hfound)]
    exact {
      guards := hguards
      counts := hcounts
      pushed := hs.pushed
      kept := hkept
      quiet := hs.quiet
      sampled := by
        intro _ p hp _
        obtain ⟨old, hold, rfl⟩ := List.mem_map.mp hp
        rfl
      released := by
        intro _ p hp _
        have hzero : s.guards = 0 := by omega
        rw [hguards, List.countP_eq_zero] at hzero
        simpa using hzero p hp
      drained := by simp }

/-- `run` reads the posted count: where it is zero, the queue holds no task that
was counted, and the batch is empty. -/
theorem readPosted_inv {s : State} (hs : Inv s) {test : Check}
    (hreactor : s.reactor = .check test .posted) :
    Inv (s.readWork s.posted.hasPendingTasks test (.check test .timers)) := by
  unfold State.readWork
  split
  · exact hs.toPlain test.next s.stopped s.stopSet test.next_plain
      (by simp [hreactor]) hs.quiet
  · next hnone =>
      have hcounts := hs.counts
      have hkept := hs.kept
      rw [hreactor] at hcounts hkept
      have hempty : s.settled.queue = [] := by
        apply hcounts.queue_eq_nil
        have hsame : s.settled.pendingCount = s.posted.pendingCount := by
          unfold State.settled
          split <;> rfl
        rw [PostedQueue.hasPendingTasks, hsame]
        simpa [PostedQueue.hasPendingTasks] using hnone
      exact {
        guards := hs.guards
        counts := hcounts
        pushed := hs.pushed
        kept := hkept
        quiet := hs.quiet
        sampled := fun _ => hs.sampled (by simp [hreactor])
        released := fun _ => hs.released (by simp [hreactor])
        drained := by
          intro _ p hp _ task htask
          simpa [hempty] using hkept p hp task htask }

/-- The last two reads. -/
theorem readRegistry_inv {s : State} (hs : Inv s) (found : Bool) (test : Check)
    {next : Reactor} (hdrained : s.drained = true) (htasks : s.reactor.tasks = [])
    (hrest : next.rest = []) (hnext : next.tasks = []) :
    Inv (s.readWork found test next) := by
  unfold State.readWork
  split
  · exact hs.toPlain test.next s.stopped s.stopSet test.next_plain htasks hs.quiet
  · have hunguarded := State.unguarded_of_drained hdrained
    have hbefore : s.reactor.rest = [] := by
      cases hreactor : s.reactor <;> simp_all
    exact {
      guards := hs.guards
      counts := by
        change s.settled.Counts next.rest
        rw [hrest, ← hbefore]
        exact hs.counts
      pushed := hs.pushed
      kept := by
        change ∀ p ∈ s.posters, ∀ task ∈ p.posted, task ∈ s.settled.queue ∨
          task ∈ next.tasks ∨ task ∈ s.executed
        rw [hnext, ← htasks]
        exact hs.kept
      quiet := hs.quiet
      sampled := fun _ => hs.sampled hunguarded
      released := fun _ => hs.released hunguarded
      drained := fun _ => hs.drained hdrained }

/-- The swap at the head of `process`. -/
theorem swap_inv {s : State} (hs : Inv s) {drain : Drain}
    (hreactor : s.reactor = .swap drain) (hfree : ¬ s.mutex.isSome = true) :
    Inv { s with
      reactor := .batch drain s.posted.swap.1, posted := s.posted.swap.2 } := by
  have hcounts := hs.counts
  have hkept := hs.kept
  rw [State.settled_of_free hfree, hreactor] at hcounts hkept
  have hsettled : State.settled { s with
      reactor := .batch drain s.posted.swap.1, posted := s.posted.swap.2 } =
        s.posted.swap.2 := State.settled_of_free hfree
  refine Inv.of_guarded rfl hs.guards ?_ ?_ ?_ ?_
  · rw [hsettled]
    exact hcounts.swap
  · intro i task hmutex
    exact absurd (Option.isSome_iff_exists.mpr ⟨_, hmutex⟩) hfree
  · intro p hp task htask
    rcases hkept p hp task htask with hqueue | htasks | hexecuted
    · exact .inr (.inl hqueue)
    · simp at htasks
    · exact .inr (.inr hexecuted)
  · exact hs.quiet

theorem settled_take {s : State} (reactor : Reactor) :
    State.settled { s with reactor, posted := s.posted.take } = s.settled.take := by
  unfold State.settled
  split <;> rfl

/-- The next task of the batch is taken and counted off. -/
theorem take_inv {s : State} (hs : Inv s) {drain : Drain} {task : Nat}
    {rest : List Nat} (hreactor : s.reactor = .batch drain (task :: rest)) :
    Inv { s with
      reactor := .inTask drain task rest, posted := s.posted.take } := by
  have hcounts := hs.counts
  have hkept := hs.kept
  rw [hreactor] at hcounts hkept
  refine Inv.of_guarded rfl hs.guards ?_ ?_ ?_ ?_
  · rw [settled_take]
    exact hcounts.take
  · exact hs.pushed
  · rw [settled_take]
    exact hkept
  · exact hs.quiet

/-- A task that has ended was executed. -/
theorem ends_inv {s : State} (hs : Inv s) {drain : Drain} {task : Nat}
    {rest : List Nat} (hreactor : s.reactor = .inTask drain task rest) :
    Inv { s with
      reactor := .batch drain rest, executed := s.executed ++ [task] } := by
  have hcounts := hs.counts
  have hkept := hs.kept
  rw [hreactor] at hcounts hkept
  refine Inv.of_guarded rfl hs.guards hcounts hs.pushed ?_ ?_
  · intro p hp mine hmine
    change mine ∈ s.settled.queue ∨ mine ∈ rest ∨ mine ∈ s.executed ++ [task]
    rcases hkept p hp mine hmine with hqueue | htasks | hexecuted
    · exact .inl hqueue
    · rcases List.mem_cons.mp htasks with rfl | hrest
      · exact .inr (.inr (by simp))
      · exact .inr (.inl hrest)
    · exact .inr (.inr (by simp [hexecuted]))
  · exact hs.quiet

/-- A task throws: the rest of the batch goes back to the queue. -/
theorem throws_inv {s : State} (hs : Inv s) {drain : Drain} {task : Nat}
    {rest : List Nat} (hreactor : s.reactor = .inTask drain task rest)
    (hfree : ¬ s.mutex.isSome = true) :
    Inv { s with
      reactor := drain.thrown
      posted := s.posted.restore rest
      executed := s.executed ++ [task] } := by
  have hcounts := hs.counts
  have hkept := hs.kept
  rw [State.settled_of_free hfree, hreactor] at hcounts hkept
  have hsettled : State.settled { s with
      reactor := drain.thrown, posted := s.posted.restore rest,
      executed := s.executed ++ [task] } = s.posted.restore rest :=
    State.settled_of_free hfree
  refine Inv.of_guarded (State.unguarded_of_plain drain.thrown_plain) hs.guards
    ?_ ?_ ?_ ?_
  · rw [hsettled, Reactor.rest_of_plain drain.thrown_plain]
    exact hcounts.restore
  · intro i task hmutex
    exact absurd (Option.isSome_iff_exists.mpr ⟨_, hmutex⟩) hfree
  · intro p hp mine hmine
    rw [hsettled]
    change mine ∈ s.posted.queue ++ rest ∨ mine ∈ drain.thrown.tasks ∨
      mine ∈ s.executed ++ [task]
    rcases hkept p hp mine hmine with hqueue | htasks | hexecuted
    · exact .inl (List.mem_append_left _ hqueue)
    · rcases List.mem_cons.mp htasks with rfl | hrest
      · exact .inr (.inr (by simp))
      · exact .inl (List.mem_append_right _ hrest)
    · exact .inr (.inr (by simp [hexecuted]))
  · exact hs.quiet

/-- `run` finds `stopped_` set and returns. -/
theorem stopped_inv {s : State} (hs : Inv s) (htasks : s.reactor.tasks = [])
    (hrest : s.reactor.rest = []) (hstopped : s.stopped = true) :
    Inv { s with reactor := .returned } := by
  have hset : s.stopSet = true := by
    by_contra hclear
    rw [hs.quiet (by simpa using hclear)] at hstopped
    exact Bool.noConfusion hstopped
  have hcounts := hs.counts
  have hkept := hs.kept
  rw [hrest] at hcounts
  rw [htasks] at hkept
  exact Inv.of_guarded (by simp [hset]) hs.guards hcounts hs.pushed hkept hs.quiet

theorem advance_inv {s t : State} {fails : Bool} (hs : Inv s)
    (hstep : s.advance fails = some t) : Inv t := by
  unfold State.advance at hstep
  split at hstep
  · simp at hstep
  · simp at hstep
  · next test hreactor =>
      obtain rfl := Option.some.inj hstep
      split
      · next hstopped =>
          exact stopped_inv hs (by simp [hreactor]) (by simp [hreactor]) hstopped
      · exact hs.toPlain _ _ _ rfl (by simp [hreactor]) hs.quiet
  · next test hreactor =>
      obtain rfl := Option.some.inj hstep
      exact readGuards_inv hs hreactor
  · next test hreactor =>
      obtain rfl := Option.some.inj hstep
      exact readPosted_inv hs hreactor
  · next test hreactor =>
      obtain rfl := Option.some.inj hstep
      exact readRegistry_inv hs _ test (by simp [hreactor]) (by simp [hreactor])
        rfl rfl
  · next test hreactor =>
      obtain rfl := Option.some.inj hstep
      exact readRegistry_inv hs _ test (by simp [hreactor]) (by simp [hreactor])
        rfl rfl
  · next drain hreactor =>
      split at hstep
      · simp at hstep
      · next hfree =>
          obtain rfl := Option.some.inj hstep
          exact swap_inv hs hreactor hfree
  · next drain hreactor =>
      obtain rfl := Option.some.inj hstep
      exact hs.toPlain _ _ _ drain.next_plain (by simp [hreactor]) hs.quiet
  · next drain task rest hreactor =>
      obtain rfl := Option.some.inj hstep
      exact take_inv hs hreactor
  · next drain task rest hreactor =>
      split at hstep
      · split at hstep
        · simp at hstep
        · next hfree =>
            obtain rfl := Option.some.inj hstep
            exact throws_inv hs hreactor hfree
      · obtain rfl := Option.some.inj hstep
        exact ends_inv hs hreactor
  · next hreactor =>
      obtain rfl := Option.some.inj hstep
      exact hs.toPlain _ _ _ (by split <;> rfl) (by simp [hreactor]) hs.quiet
  · next hreactor =>
      split at hstep
      · obtain rfl := Option.some.inj hstep
        exact hs.toPlain _ _ _ rfl (by simp [hreactor]) (by simp)
      · obtain rfl := Option.some.inj hstep
        exact hs.toPlain _ _ _ rfl (by simp [hreactor]) hs.quiet
  · next hreactor =>
      obtain rfl := Option.some.inj hstep
      exact hs.toPlain _ _ _ (by split <;> rfl) (by simp [hreactor]) hs.quiet
  · next hreactor =>
      obtain rfl := Option.some.inj hstep
      exact hs.toPlain _ _ _ rfl (by simp [hreactor]) hs.quiet
  · next hreactor =>
      obtain rfl := Option.some.inj hstep
      exact hs.toPlain _ _ _ (by split <;> rfl) (by simp [hreactor]) hs.quiet

/-! ### The other steps -/

/-- What the invariant says of one poster. -/
structure PosterOk (s : State) (p : Poster) : Prop where
  kept : ∀ task ∈ p.posted, task ∈ s.settled.queue ∨ task ∈ s.reactor.tasks ∨
    task ∈ s.executed
  sampled : s.unguarded = true → p.before = true → p.sampled = true
  released : s.unguarded = true → p.sampled = true → p.holds = false
  drained : s.drained = true → p.sampled = true →
    ∀ task ∈ p.posted, task ∈ s.executed

theorem Inv.poster {s : State} (hs : Inv s) {p : Poster} (hp : p ∈ s.posters) :
    PosterOk s p where
  kept := hs.kept p hp
  sampled h := hs.sampled h p hp
  released h := hs.released h p hp
  drained h := hs.drained h p hp

theorem Inv.of_posters {t : State}
    (hguards : t.guards = t.posters.countP Poster.holds)
    (hcounts : t.settled.Counts t.reactor.rest)
    (hpushed : ∀ i task, t.mutex = some (i, task) →
      t.posted.queue.getLast? = some task)
    (hquiet : t.stopSet = false → t.stopped = false)
    (hposters : ∀ p ∈ t.posters, PosterOk t p) : Inv t where
  guards := hguards
  counts := hcounts
  pushed := hpushed
  kept p hp := (hposters p hp).kept
  quiet := hquiet
  sampled h p hp := (hposters p hp).sampled h
  released h p hp := (hposters p hp).released h
  drained h p hp := (hposters p hp).drained h

theorem countP_holds_set {posters : List Poster} {i : Nat} {p : Poster}
    (hp : posters[i]? = some p) (new : Poster) :
    (posters.set i new).countP Poster.holds + p.holds.toNat =
      posters.countP Poster.holds + new.holds.toNat := by
  obtain ⟨hlt, rfl⟩ := List.getElem?_eq_some_iff.mp hp
  have hset := Inventory.countP_set hlt Poster.holds new posters[i]
  have hold : posters.getD i posters[i] = posters[i] := by simp [hlt]
  rwa [hold] at hset

theorem join_inv {s : State} (hs : Inv s) (guarded : Bool) :
    Inv { s with
      guards := if guarded then s.guards + 1 else s.guards
      posters := s.posters ++ [{ holds := guarded }] } := by
  refine Inv.of_posters ?_ hs.counts hs.pushed hs.quiet ?_
  · cases guarded <;> simp [hs.guards]
  · intro p hp
    rcases List.mem_append.mp hp with hold | hnew
    · exact { hs.poster hold with }
    · obtain rfl := List.mem_singleton.mp hnew
      exact ⟨by simp, by simp, by simp, by simp⟩

theorem push_inv {s : State} (hs : Inv s) (i : Nat)
    (hfree : ¬ s.mutex.isSome = true) :
    Inv { s with
      posted := s.posted.push s.next, mutex := some (i, s.next),
      next := s.next + 1 } := by
  have hsettled : State.settled { s with
      posted := s.posted.push s.next, mutex := some (i, s.next),
      next := s.next + 1 } = s.settled := by
    rw [State.settled_of_free hfree]
    simp [State.settled, PostedQueue.push]
  refine Inv.of_posters hs.guards ?_ ?_ hs.quiet ?_
  · rw [hsettled]
    exact hs.counts
  · intro owner task hmutex
    obtain ⟨-, rfl⟩ := Prod.mk.inj (Option.some.inj hmutex)
    simp [PostedQueue.push]
  · intro p hp
    have hold := hs.poster hp
    exact { hold with kept := by rw [hsettled]; exact hold.kept }

theorem count_inv {s : State} (hs : Inv s) {i : Nat} {p : Poster} {task : Nat}
    (hmutex : s.mutex = some (i, task)) (hp : s.posters[i]? = some p) :
    Inv { s with
      posted := s.posted.count
      mutex := none
      posters := s.posters.set i
        { p with posted := if p.holds then p.posted ++ [task] else p.posted } } := by
  have hlast := hs.pushed i task hmutex
  have hqueue : s.posted.queue.dropLast ++ [task] = s.posted.queue :=
    List.dropLast_append_getLast? task hlast
  have hlocked : s.settled =
      { s.posted with queue := s.posted.queue.dropLast } := by
    simp [State.settled, hmutex]
  have hcounts := hs.counts
  rw [hlocked] at hcounts
  have hkept : ∀ p ∈ s.posters, ∀ mine ∈ p.posted, mine ∈ s.posted.queue ∨
      mine ∈ s.reactor.tasks ∨ mine ∈ s.executed := by
    intro p hp mine hmine
    have hbefore := hs.kept p hp mine hmine
    rw [hlocked] at hbefore
    exact hbefore.imp_left fun h => List.dropLast_subset _ h
  have hmem := List.mem_of_getElem? hp
  refine Inv.of_posters ?_ ?_ (by simp) hs.quiet ?_
  · have hset := countP_holds_set hp
      { p with posted := if p.holds then p.posted ++ [task] else p.posted }
    have hguards := hs.guards
    simp only at hset ⊢
    omega
  · change s.posted.pendingCount + 1 =
      s.posted.queue.length + s.reactor.rest.length
    have hlength := congrArg List.length hqueue
    simp only [PostedQueue.Counts, List.length_append, List.length_singleton]
      at hcounts hlength
    omega
  · intro mine hmine
    rcases List.mem_or_eq_of_mem_set hmine with hold | rfl
    · have hok := hs.poster hold
      exact { hok with kept := hkept mine hold }
    · have hok := hs.poster hmem
      exact {
        kept := by
          intro mine hmine
          have hcases : mine ∈ p.posted ∨ mine = task := by
            split at hmine
            · simpa using hmine
            · exact .inl hmine
          rcases hcases with hbefore | rfl
          · exact hkept p hmem mine hbefore
          · exact .inl (List.mem_of_getLast? hlast)
        sampled := hok.sampled
        released := hok.released
        drained := by
          intro hdrained hsampled mine hmine
          have hreleased := hok.released (State.unguarded_of_drained hdrained) hsampled
          rw [if_neg (by simp [hreleased])] at hmine
          exact hok.drained hdrained hsampled mine hmine }

theorem release_inv {s : State} (hs : Inv s) {i : Nat} {p : Poster}
    (hp : s.posters[i]? = some p) (hholds : p.holds = true) :
    Inv { s with
      guards := s.guards - 1
      posters := s.posters.set i { p with holds := false } } := by
  have hmem := List.mem_of_getElem? hp
  refine Inv.of_posters ?_ hs.counts hs.pushed hs.quiet ?_
  · have hset := countP_holds_set hp { p with holds := false }
    have hguards := hs.guards
    simp only [hholds, Bool.toNat_true, Bool.toNat_false] at hset ⊢
    omega
  · intro mine hmine
    rcases List.mem_or_eq_of_mem_set hmine with hold | rfl
    · exact { hs.poster hold with }
    · exact { hs.poster hmem with released := fun _ _ => rfl }

theorem stop_inv {s : State} (hs : Inv s) :
    Inv { s with stopped := true, stopSet := true } := by
  have hunguarded : State.unguarded { s with stopped := true, stopSet := true } =
      true → s.unguarded = true := by
    cases hreactor : s.reactor with
    | check test read => cases read <;> simp [hreactor]
    | _ => simp_all
  have hdrained : State.drained { s with stopped := true, stopSet := true } =
      true → s.drained = true := by
    cases hreactor : s.reactor with
    | check test read => cases read <;> simp [hreactor]
    | _ => simp_all
  exact { hs with
    quiet := by simp
    sampled := fun h => hs.sampled (hunguarded h)
    released := fun h => hs.released (hunguarded h)
    drained := fun h => hs.drained (hdrained h) }

theorem enter_inv {s : State} (hs : Inv s)
    (hidle : s.reactor = .outside ∨ s.reactor = .returned) : Inv s.enter := by
  have hcounts := hs.counts
  have hkept := hs.kept
  have hrest : s.reactor.rest = [] ∧ s.reactor.tasks = [] := by
    rcases hidle with h | h <;> simp [h]
  rw [hrest.1] at hcounts
  rw [hrest.2] at hkept
  refine Inv.of_guarded rfl ?_ hcounts hs.pushed ?_ ?_
  · change s.guards = (s.posters.map _).countP Poster.holds
    rw [List.countP_map, hs.guards]
    rfl
  · intro p hp task htask
    obtain ⟨old, hold, rfl⟩ := List.mem_map.mp hp
    exact hkept old hold task htask
  · exact fun hstopped => hstopped

theorem step_inv {s t : State} {a : Action} (hs : Inv s)
    (hstep : step s a = some t) : Inv t := by
  cases a with
  | join guarded =>
      obtain rfl := Option.some.inj hstep
      exact join_inv hs guarded
  | push i =>
      obtain ⟨p, -, hpush⟩ := Option.bind_eq_some_iff.mp hstep
      split at hpush
      · simp at hpush
      · next hfree =>
          obtain rfl := Option.some.inj hpush
          exact push_inv hs i hfree
  | count i =>
      obtain ⟨p, hp, hcount⟩ := Option.bind_eq_some_iff.mp hstep
      split at hcount
      · next owner task hmutex =>
          split at hcount
          · next howner =>
              subst howner
              obtain rfl := Option.some.inj hcount
              exact count_inv hs hmutex hp
          · simp at hcount
      · simp at hcount
  | release i =>
      obtain ⟨p, hp, hrelease⟩ := Option.bind_eq_some_iff.mp hstep
      split at hrelease
      · next hholds =>
          obtain rfl := Option.some.inj hrelease
          exact release_inv hs hp hholds.1
      · simp at hrelease
  | setTimers timers =>
      obtain rfl := Option.some.inj hstep
      exact { hs with }
  | setFds fds =>
      obtain rfl := Option.some.inj hstep
      exact { hs with }
  | stop =>
      obtain rfl := Option.some.inj hstep
      exact stop_inv hs
  | restart =>
      obtain rfl := Option.some.inj hstep
      exact { hs with quiet := fun _ => rfl }
  | enter =>
      simp only [step] at hstep
      split at hstep
      · next hidle =>
          obtain rfl := Option.some.inj hstep
          exact enter_inv hs hidle
      · simp at hstep
  | advance fails => exact advance_inv hs hstep

theorem start_inv : Inv system.start where
  guards := rfl
  counts := rfl
  pushed := by simp [system]
  kept := by simp [system]
  quiet := fun _ => rfl
  sampled := by simp [system]
  released := by simp [system]
  drained := by simp [system]

/-- When `run` has returned and `stopped_` was not set, every guard acquired before
`run` was called, or before `run` last read the guard count, has been released, and
the tasks posted under it have been executed. -/
theorem executed_of_returned (s : State) (hs : system.Reachable s)
    (hreturned : s.reactor = .returned) (hstopped : s.stopSet = false) :
    ∀ p ∈ s.posters, p.before = true ∨ p.sampled = true →
      p.holds = false ∧ ∀ task ∈ p.posted, task ∈ s.executed := by
  have hinv : Inv s := hs.invariant start_inv fun _ _ _ h hstep => step_inv h hstep
  have hdrained : s.drained = true := by simp [hreturned, hstopped]
  have hunguarded := State.unguarded_of_drained hdrained
  intro p hp hacquired
  have hsampled : p.sampled = true :=
    hacquired.elim (hinv.sampled hunguarded p hp) id
  exact ⟨hinv.released hunguarded p hp hsampled,
    hinv.drained hdrained p hp hsampled⟩

/-- The guard is released and the task posted between two reads of `run`. -/
theorem executed_of_returned_releasedBetweenReads : ∃ s, system.Reachable s ∧
    s.reactor = .returned ∧ s.stopSet = false ∧
    (∃ p ∈ s.posters, p.before = true ∧ p.posted = [0]) ∧
    ∀ p ∈ s.posters, p.before = true ∨ p.sampled = true →
      p.holds = false ∧ ∀ task ∈ p.posted, task ∈ s.executed := by
  obtain ⟨s, hs, hp⟩ := TransitionSystem.exists_reachable_of_exec system
    ([Action.join true, .enter] ++ List.replicate 5 (Action.advance false) ++
      [Action.push 0, .count 0, .release 0] ++
      List.replicate 20 (Action.advance false))
    (fun s => decide (s.reactor = .returned ∧ s.stopSet = false ∧
      ∃ p ∈ s.posters, p.before = true ∧ p.posted = [0])) (by decide)
  obtain ⟨hreturned, hstopped, hposter⟩ := of_decide_eq_true hp
  exact ⟨s, hs, hreturned, hstopped, hposter,
    executed_of_returned s hs hreturned hstopped⟩

end GuardedRun

end Iocoro
