/-
`io_context_impl::run` against any number of foreign threads.  The reactor and
the foreign calls are interleaved at the level of single atomic operations and
locked sections; registries are represented by how many operations they hold,
which is all that `has_work` and `next_wait` read of them.
-/
import Iocoro.TransitionSystem
import Iocoro.WakeState
import Iocoro.PostedQueue

namespace Iocoro

universe u

namespace EventLoop

variable {Task : Type u}

/-- The three `is_stopped() || !has_work()` tests of one iteration. -/
inductive Check where
  | first
  | second
  | third
deriving DecidableEq, Repr

/-- The shared read a test makes next; `has_work` reads the registries, which
belong to the reactor, together with the posted counter. -/
inductive Read where
  | stopped
  | guards
  | pending
deriving DecidableEq, Repr

/-- The value of `max_wait`: no timeout, a positive one, or zero. -/
inductive WaitMode where
  | forever
  | bounded
  | poll
deriving DecidableEq, Repr

/-- Who called `process_posted`: an iteration of `run`, or the clean-up after a
failed backend wait. -/
inductive Drain where
  | loop
  | failure
deriving DecidableEq, Repr

/-- Where the reactor thread stands in `run` and the functions it calls. -/
inductive Reactor (Task : Type u) where
  | outside
  | check (test : Check) (read : Read)
  | swap (drain : Drain)
  | batch (drain : Drain) (rest : List Task)
  | inTask (drain : Drain) (rest : List Task)
  | timers
  | chooseWait
  | look (mode : WaitMode)
  | prepare (mode : WaitMode)
  | blocked (mode : WaitMode)
  | draining
  | consuming
  | finishing (failed : Bool)
  | closing (failed : Bool)
  | dispatching
  | failed
  | failedLook
deriving DecidableEq, Repr

/-- The foreign calls that end in `wakeup()`; `wakeup` stands for the callers
that change nothing `run` looks at, such as `add_fd`. -/
inductive Call where
  | post
  | stop
  | removeGuard
  | wakeup
deriving DecidableEq, Repr

/-- A call that has taken effect and is on its way through `wakeup()`. -/
inductive CallPc where
  | load (call : Call)
  | exchange (call : Call)
  | write (call : Call)
deriving DecidableEq, Repr

/-- The shared state, the reactor, and the foreign calls in progress, one entry
for each. -/
structure Loop (Task : Type u) where
  stopped : Bool := false
  workGuards : Nat := 0
  posted : PostedQueue Task := {}
  timers : Nat := 0
  fdOps : Nat := 0
  phase : Phase := .running
  eventfd : Nat := 0
  reactor : Reactor Task := .outside
  calls : List CallPc := []
deriving DecidableEq, Repr

/-- The steps.  The first group is the reactor in `run`, the second is what
tasks and callbacks do on the reactor thread, the third is foreign. -/
inductive Action (Task : Type u) where
  | enter
  | readStopped
  | readGuards
  | readPending
  | swapPosted
  | takeTask
  | taskEnds
  | taskThrows
  | timersDone
  | nextWait (mode : WaitMode)
  | lastLook
  | prepareWait
  | waitReturns (woken : Bool)
  | waitFails
  | drainEventfd
  | consume
  | finishLoad
  | finishExchange
  | dispatched
  | failStop
  | failLook
  | reactorPost (task : Task)
  | reactorTimers (count : Nat)
  | reactorFds (count : Nat)
  | post (task : Task)
  | stop
  | addGuard
  | removeGuard
  | wakeup
  | notifyLoad (call : Call)
  | notifyExchange (call : Call)
  | eventfdWrite (call : Call)
deriving DecidableEq, Repr

/-- `has_work`. -/
def Loop.hasWork (s : Loop Task) : Bool :=
  decide (0 < s.workGuards) || s.posted.hasPendingTasks ||
    decide (0 < s.timers) || decide (0 < s.fdOps)

/-- Where a passed test leads. -/
def Check.next : Check → Reactor Task
  | .first => .swap .loop
  | .second => .timers
  | .third => .chooseWait

/-- Where `process_posted` returns to. -/
def Drain.next : Drain → Reactor Task
  | .loop => .check .second .stopped
  | .failure => .failedLook

/-- Where an exception of a task leads: out of `run`, or nowhere when the
clean-up swallows it. -/
def Drain.thrown : Drain → Reactor Task
  | .loop => .outside
  | .failure => .failedLook

/-- Where `wait` leads once its scope guard has run: to the clean-up when it
threw, else to the dispatch of the reported events. -/
def afterWait : Bool → Reactor Task
  | true => .failed
  | false => .dispatching

/-- `timers_.next_timeout()`: unbounded exactly when no timer is registered. -/
def WaitMode.fits : WaitMode → Nat → Bool
  | .forever, timers => timers == 0
  | _, timers => timers != 0

/-- `process_events` announces the wait exactly when it can block. -/
def enterWait : WaitMode → Reactor Task
  | .poll => .blocked .poll
  | mode => .prepare mode

/-- Whether the reactor is executing a task or a callback. -/
def Reactor.userCode : Reactor Task → Bool
  | .inTask _ _ | .timers | .dispatching | .failedLook => true
  | _ => false

/-- The part of the posted queue that `process` holds in its local batch. -/
def Reactor.local : Reactor Task → List Task
  | .batch _ rest | .inTask _ rest => rest
  | _ => []

/-- Replace one foreign call by its next stage. -/
def Loop.advance (s : Loop Task) (old : CallPc) (new : List CallPc) :
    Loop Task :=
  { s with calls := new ++ s.calls.erase old }

/-- The reactor thread in `run` and in `process_posted`, and the clean-up of
`process_events`.  These steps leave the wake-up machinery alone. -/
def controlStep (s : Loop Task) (a : Action Task) : Option (Loop Task) :=
  match a, s.reactor with
  | .enter, .outside => some { s with reactor := .check .first .stopped }
  | .readStopped, .check test .stopped =>
      if s.stopped then some { s with reactor := .outside }
      else some { s with reactor := .check test .guards }
  | .readGuards, .check test .guards =>
      if 0 < s.workGuards then some { s with reactor := test.next }
      else some { s with reactor := .check test .pending }
  | .readPending, .check test .pending =>
      if s.posted.hasPendingTasks || 0 < s.timers || 0 < s.fdOps then
        some { s with reactor := test.next }
      else some { s with reactor := .outside }
  | .swapPosted, .swap drain =>
      some { s with
        reactor := .batch drain s.posted.swap.1, posted := s.posted.swap.2 }
  | .takeTask, .batch drain [] => some { s with reactor := drain.next }
  | .takeTask, .batch drain (_ :: rest) =>
      some { s with reactor := .inTask drain rest, posted := s.posted.take }
  | .taskEnds, .inTask drain rest => some { s with reactor := .batch drain rest }
  | .taskThrows, .inTask drain rest =>
      some { s with reactor := drain.thrown, posted := s.posted.restore rest }
  | .timersDone, .timers => some { s with reactor := .check .third .stopped }
  | .nextWait mode, .chooseWait =>
      if mode.fits s.timers then some { s with reactor := .look mode } else none
  | .lastLook, .look mode =>
      if s.posted.hasPendingTasks then some { s with reactor := enterWait .poll }
      else some { s with reactor := enterWait mode }
  | .dispatched, .dispatching => some { s with reactor := .check .first .stopped }
  | .failStop, .failed =>
      some { s with
        reactor := .failedLook, stopped := true, timers := 0, fdOps := 0 }
  | .failLook, .failedLook =>
      if s.posted.hasPendingTasks then some { s with reactor := .swap .failure }
      else some { s with reactor := .check .first .stopped }
  | _, _ => none

/-- The reactor thread in `prepare_wait` and `wait`.  A wait returns with the
eventfd among its events only if that is readable; it may return without it
because of other descriptors, a timeout or a signal. -/
def waitStep (s : Loop Task) (a : Action Task) : Option (Loop Task) :=
  match a, s.reactor with
  | .prepareWait, .prepare mode =>
      some { s with reactor := .blocked mode, phase := s.phase.beginWait }
  | .waitReturns false, .blocked _ => some { s with reactor := .finishing false }
  | .waitReturns true, .blocked _ =>
      if 0 < s.eventfd then some { s with reactor := .draining } else none
  | .waitFails, .blocked _ => some { s with reactor := .finishing true }
  | .drainEventfd, .draining =>
      if 0 < s.eventfd then some { s with reactor := .draining, eventfd := 0 }
      else some { s with reactor := .consuming }
  | .consume, .consuming =>
      some { s with
        reactor := .finishing false, phase := s.phase.consumeNotification }
  | .finishLoad, .finishing failed =>
      if s.phase.finishLoad then some { s with reactor := .closing failed }
      else some { s with reactor := afterWait failed }
  | .finishExchange, .closing failed =>
      some { s with reactor := afterWait failed, phase := s.phase.finishExchange }
  | _, _ => none

/-- What a task or a callback does on the reactor thread.  A post from there
wakes nobody; registering and completing operations is seen by `run` only
through how many are left. -/
def userStep (s : Loop Task) : Action Task → Option (Loop Task)
  | .reactorPost task =>
      if s.reactor.userCode then some { s with posted := s.posted.post task }
      else none
  | .reactorTimers count =>
      if s.reactor.userCode then some { s with timers := count } else none
  | .reactorFds count =>
      if s.reactor.userCode then some { s with fdOps := count } else none
  | _ => none

/-- The foreign threads.  `post`, `stop` and `remove_work_guard` take effect in
their first step and then run `wakeup()`: the load and the exchange of
`notify`, and the eventfd write, which succeeds. -/
def foreignStep (s : Loop Task) : Action Task → Option (Loop Task)
  | .post task =>
      some { s with posted := s.posted.post task, calls := .load .post :: s.calls }
  | .stop =>
      some { s with stopped := true, calls := .load .stop :: s.calls }
  | .addGuard =>
      some { s with workGuards := s.workGuards + 1 }
  | .removeGuard =>
      if s.workGuards = 0 then none
      else if s.workGuards = 1 then
        some { s with workGuards := 0, calls := .load .removeGuard :: s.calls }
      else some { s with workGuards := s.workGuards - 1 }
  | .wakeup =>
      some { s with calls := .load .wakeup :: s.calls }
  | .notifyLoad call =>
      if CallPc.load call ∈ s.calls then
        if s.phase.notifyLoad then some (s.advance (.load call) [.exchange call])
        else some (s.advance (.load call) [])
      else none
  | .notifyExchange call =>
      if CallPc.exchange call ∈ s.calls then
        match s.phase.notifyExchange with
        | some phase =>
            some { s.advance (.exchange call) [.write call] with phase := phase }
        | none => some (s.advance (.exchange call) [])
      else none
  | .eventfdWrite call =>
      if CallPc.write call ∈ s.calls then
        some { s.advance (.write call) [] with eventfd := s.eventfd + 1 }
      else none
  | _ => none

/-- One step of the reactor thread or of a foreign thread. -/
def step (s : Loop Task) (a : Action Task) : Option (Loop Task) :=
  (controlStep s a).or ((waitStep s a).or ((userStep s a).or (foreignStep s a)))

def system (Task : Type u) : TransitionSystem (Loop Task) (Action Task) where
  start := {}
  step := step

/-- What a call of this kind has changed and the reactor must not sleep
through. -/
def Loop.unseen (s : Loop Task) : Call → Bool
  | .post => !s.posted.queue.isEmpty
  | .stop => s.stopped
  | .removeGuard => !s.hasWork
  | .wakeup => false

/-- The reactor has made its last read of what the call changes, is on its way
into a wait without timeout, and has not yet announced that wait by
`prepare_wait`. -/
def Loop.gap (s : Loop Task) : Call → Bool
  | .post =>
      match s.reactor with
      | .prepare .forever => true
      | _ => false
  | .stop =>
      match s.reactor with
      | .check .third .guards | .check .third .pending | .chooseWait =>
          s.timers == 0
      | .look .forever | .prepare .forever => true
      | _ => false
  | .removeGuard =>
      match s.reactor with
      | .chooseWait => s.timers == 0
      | .look .forever | .prepare .forever => true
      | _ => false
  | .wakeup => false

/-- The reactor is in a wait without timeout. -/
def Reactor.asleep : Reactor Task → Bool
  | .blocked .forever => true
  | _ => false

/-- The states in which a change of this kind depends on a wake-up. -/
def Loop.atRisk (s : Loop Task) (call : Call) : Bool :=
  s.gap call || s.reactor.asleep

/-- A wake-up is on its way: a token is claimed, or a call of this kind has yet
to look at the phase, or it has found the phase `waiting`. -/
def Loop.wakeComing (s : Loop Task) (call : Call) : Prop :=
  s.phase = .notified ∨ .load call ∈ s.calls ∨
    (s.reactor.asleep = true ∧ .exchange call ∈ s.calls)

/-- The steps that lose no wake-up: `notify()` does not read the phase
`running` while the reactor is in the gap of that call. -/
def heedsGap (s : Loop Task) : Action Task → Bool
  | .notifyLoad call => !(s.gap call && s.phase == .running)
  | _ => true

/-- Where the reactor has not started on the way into an unbounded wait. -/
def Reactor.calm : Reactor Task → Bool
  | .check .third .guards | .check .third .pending | .chooseWait
  | .look .forever | .prepare .forever | .blocked .forever => false
  | _ => true

/-- Where the wait window opened by `prepare_wait` may still be open. -/
def Reactor.window : Reactor Task → Bool
  | .blocked _ | .draining | .consuming | .finishing _ | .closing _ => true
  | _ => false

theorem Loop.atRisk_eq_false_of_calm {s : Loop Task}
    (hcalm : s.reactor.calm = true) (call : Call) : s.atRisk call = false := by
  unfold Reactor.calm at hcalm
  cases call <;> simp only [Loop.atRisk, Loop.gap, Reactor.asleep] <;>
    split at hcalm <;> simp_all

theorem Reactor.calm_of_userCode {pc : Reactor Task}
    (huser : pc.userCode = true) : pc.calm = true := by
  cases pc <;> simp_all [Reactor.userCode, Reactor.calm]

theorem Loop.gap_not_window {s : Loop Task} {call : Call}
    (hgap : s.gap call = true) : s.reactor.window = false := by
  cases call <;> simp only [Loop.gap] at hgap
  case wakeup => simp at hgap
  all_goals split at hgap <;> simp_all [Reactor.window]

section Simp

variable (test : Check) (drain : Drain) (mode : WaitMode) (failed : Bool)

@[simp] theorem Check.next_local : (test.next : Reactor Task).local = [] := by
  cases test <;> rfl

@[simp] theorem Check.next_asleep :
    (test.next : Reactor Task).asleep = false := by
  cases test <;> rfl

@[simp] theorem Drain.next_local : (drain.next : Reactor Task).local = [] := by
  cases drain <;> rfl

@[simp] theorem Drain.next_calm : (drain.next : Reactor Task).calm = true := by
  cases drain <;> rfl

@[simp] theorem Drain.thrown_local :
    (drain.thrown : Reactor Task).local = [] := by
  cases drain <;> rfl

@[simp] theorem Drain.thrown_calm :
    (drain.thrown : Reactor Task).calm = true := by
  cases drain <;> rfl

@[simp] theorem enterWait_local : (enterWait mode : Reactor Task).local = [] := by
  cases mode <;> rfl

@[simp] theorem enterWait_asleep :
    (enterWait mode : Reactor Task).asleep = false := by
  cases mode <;> rfl

@[simp] theorem afterWait_local : (afterWait failed : Reactor Task).local = [] := by
  cases failed <;> rfl

@[simp] theorem afterWait_calm : (afterWait failed : Reactor Task).calm = true := by
  cases failed <;> rfl

theorem Reactor.asleep_of_calm {pc : Reactor Task} (hcalm : pc.calm = true) :
    pc.asleep = false := by
  unfold Reactor.calm at hcalm
  split at hcalm <;> simp_all [Reactor.asleep]

end Simp

/-- The invariant of the runs that heed the gap. -/
structure Inv (s : Loop Task) : Prop where
  counted : s.posted.Counts s.reactor.local
  windowed : s.phase = .waiting → s.reactor.window = true
  announced : s.reactor.asleep = true → s.phase ≠ .running
  token : s.phase = .notified → (∃ call, CallPc.write call ∈ s.calls) ∨
    0 < s.eventfd ∨ s.reactor = .draining ∨ s.reactor = .consuming
  covered : ∀ call, s.atRisk call = true → s.unseen call = true →
    s.wakeComing call

/-- What the control steps leave alone: they run outside the wait window, keep
the phase, the eventfd and the foreign calls, and never enter an unbounded
wait. -/
theorem controlStep_frame {s t : Loop Task} {a : Action Task}
    (hstep : controlStep s a = some t) :
    s.reactor.window = false ∧ t.phase = s.phase ∧ t.eventfd = s.eventfd ∧
      t.calls = s.calls ∧ t.reactor.asleep = false := by
  unfold controlStep at hstep
  repeat' split at hstep
  all_goals simp only [reduceCtorEq, Option.some.injEq] at hstep
  all_goals
    subst hstep
    refine ⟨by rw [‹s.reactor = _›]; rfl, rfl, rfl, rfl, ?_⟩
    first
      | rfl
      | exact Check.next_asleep _
      | exact enterWait_asleep _
      | exact Reactor.asleep_of_calm (by simp)

theorem controlStep_counted {s t : Loop Task} {a : Action Task}
    (hs : s.posted.Counts s.reactor.local) (hstep : controlStep s a = some t) :
    t.posted.Counts t.reactor.local := by
  unfold controlStep at hstep
  repeat' split at hstep
  all_goals simp only [reduceCtorEq, Option.some.injEq] at hstep
  all_goals
    subst hstep
    rw [‹s.reactor = _›] at hs
    first
      | exact hs
      | exact hs.swap
      | exact PostedQueue.Counts.take hs
      | rw [Drain.thrown_local]; exact PostedQueue.Counts.restore hs
      | rw [Drain.next_local]; exact hs
      | rw [Check.next_local]; exact hs
      | rw [enterWait_local]; exact hs

/-- What a step towards the wait must guarantee for a kind of change that is at
risk afterwards: the reactor has just looked and found nothing unseen, or it
was in the gap before and nothing that matters changed. -/
def Keeps (s t : Loop Task) (call : Call) : Prop :=
  t.unseen call = false ∨
    (s.gap call = true ∧ t.unseen call = s.unseen call ∧
      t.calls = s.calls ∧ (s.phase = .notified → t.phase = .notified))

theorem Keeps.wakeComing {s t : Loop Task} {call : Call}
    (hkeeps : Keeps s t call) (hunseen : t.unseen call = true)
    (hs : s.atRisk call = true → s.unseen call = true → s.wakeComing call) :
    t.wakeComing call := by
  rcases hkeeps with hseen | ⟨hgap, hsame, hcalls, hphase⟩
  · rw [hseen] at hunseen
    simp at hunseen
  · have hrisk : s.atRisk call = true := by simp [Loop.atRisk, hgap]
    rcases hs hrisk (hsame ▸ hunseen) with hnotified | hload | ⟨hasleep, _⟩
    · exact Or.inl (hphase hnotified)
    · exact Or.inr (Or.inl (hcalls ▸ hload))
    · have hawake := Loop.gap_not_window hgap
      unfold Reactor.asleep at hasleep
      split at hasleep <;> simp_all [Reactor.window]

theorem Keeps.of_calm {s t : Loop Task} {call : Call}
    (hcalm : t.reactor.calm = true) (hrisk : t.atRisk call = true) :
    Keeps s t call := by
  rw [Loop.atRisk_eq_false_of_calm hcalm] at hrisk
  simp at hrisk

theorem Keeps.readStopped {s : Loop Task} {test : Check} {call : Call}
    (hstopped : ¬ s.stopped = true)
    (hrisk : Loop.atRisk { s with reactor := .check test .guards } call = true) :
    Keeps s { s with reactor := .check test .guards } call := by
  left
  cases test <;> cases call <;>
    simp_all [Loop.atRisk, Loop.gap, Reactor.asleep, Loop.unseen]

theorem Keeps.readGuards {s : Loop Task} {test : Check} {call : Call}
    (hpc : s.reactor = .check test .guards) (hguards : 0 < s.workGuards)
    (hrisk : Loop.atRisk { s with reactor := test.next } call = true) :
    Keeps s { s with reactor := test.next } call := by
  cases test <;> cases call <;>
    simp_all [Keeps, Loop.atRisk, Loop.gap, Reactor.asleep, Loop.unseen,
      Loop.hasWork, Check.next]

theorem Keeps.noGuards {s : Loop Task} {test : Check} {call : Call}
    (hpc : s.reactor = .check test .guards)
    (hrisk : Loop.atRisk { s with reactor := .check test .pending } call = true) :
    Keeps s { s with reactor := .check test .pending } call := by
  cases test <;> cases call <;>
    simp_all [Keeps, Loop.atRisk, Loop.gap, Reactor.asleep, Loop.unseen]

theorem Keeps.readPending {s : Loop Task} {test : Check} {call : Call}
    (hpc : s.reactor = .check test .pending)
    (hwork : (s.posted.hasPendingTasks || decide (0 < s.timers) ||
      decide (0 < s.fdOps)) = true)
    (hrisk : Loop.atRisk { s with reactor := test.next } call = true) :
    Keeps s { s with reactor := test.next } call := by
  have hhas : ∀ pc, Loop.hasWork { s with reactor := pc } = true := by
    intro pc
    simp only [Loop.hasWork, Bool.or_eq_true, decide_eq_true_eq] at hwork ⊢
    tauto
  cases test <;> cases call <;>
    simp_all [Keeps, Loop.atRisk, Loop.gap, Reactor.asleep, Loop.unseen,
      Check.next]

theorem Keeps.nextWait {s : Loop Task} {mode : WaitMode} {call : Call}
    (hpc : s.reactor = .chooseWait) (hfits : mode.fits s.timers = true)
    (hrisk : Loop.atRisk { s with reactor := .look mode } call = true) :
    Keeps s { s with reactor := .look mode } call := by
  cases mode <;> cases call <;>
    simp_all [Keeps, Loop.atRisk, Loop.gap, Reactor.asleep, Loop.unseen,
      Loop.hasWork, WaitMode.fits]

/-- The read of the counter just before the wait is what the posted tasks rely
on: a counter of zero means an empty queue. -/
theorem Keeps.lastLook {s : Loop Task} {mode : WaitMode} {call : Call}
    (hcount : s.posted.Counts s.reactor.local) (hpc : s.reactor = .look mode)
    (hpending : ¬ s.posted.hasPendingTasks = true)
    (hrisk : Loop.atRisk { s with reactor := enterWait mode } call = true) :
    Keeps s { s with reactor := enterWait mode } call := by
  have hempty := hcount.queue_eq_nil (Bool.not_eq_true _ |>.mp hpending)
  cases mode <;> cases call <;>
    simp_all [Keeps, Loop.atRisk, Loop.gap, Reactor.asleep, Loop.unseen,
      Loop.hasWork, enterWait]

theorem Keeps.prepareWait {s : Loop Task} {mode : WaitMode} {call : Call}
    (hpc : s.reactor = .prepare mode)
    (hrisk : Loop.atRisk
      { s with reactor := .blocked mode, phase := s.phase.beginWait } call = true) :
    Keeps s { s with reactor := .blocked mode, phase := s.phase.beginWait }
      call := by
  cases mode <;> cases call <;>
    simp_all [Keeps, Loop.atRisk, Loop.gap, Reactor.asleep, Loop.unseen,
      Loop.hasWork]

theorem controlStep_keeps {s t : Loop Task} {a : Action Task} {call : Call}
    (hcount : s.posted.Counts s.reactor.local)
    (hstep : controlStep s a = some t) (hrisk : t.atRisk call = true) :
    Keeps s t call := by
  unfold controlStep at hstep
  repeat' split at hstep
  all_goals simp only [reduceCtorEq, Option.some.injEq] at hstep
  all_goals subst hstep
  all_goals
    first
      | exact .of_calm rfl hrisk
      | exact .of_calm (Drain.next_calm _) hrisk
      | exact .of_calm (Drain.thrown_calm _) hrisk
      | exact .readStopped ‹_› hrisk
      | exact .readGuards ‹_› ‹_› hrisk
      | exact .noGuards ‹_› hrisk
      | exact .readPending ‹_› ‹_› hrisk
      | exact .nextWait ‹_› ‹_› hrisk
      | exact .lastLook hcount ‹_› ‹_› hrisk

theorem controlStep_inv {s t : Loop Task} {a : Action Task} (hs : Inv s)
    (hstep : controlStep s a = some t) : Inv t := by
  obtain ⟨hwindow, hphase, heventfd, hcalls, hawake⟩ := controlStep_frame hstep
  constructor
  · exact controlStep_counted hs.counted hstep
  · intro hwaiting
    rw [hs.windowed (hphase ▸ hwaiting)] at hwindow
    simp at hwindow
  · intro hasleep
    rw [hawake] at hasleep
    simp at hasleep
  · intro hnotified
    rw [hcalls, heventfd]
    rcases hs.token (hphase ▸ hnotified) with hwrite | hread | hpc | hpc
    · exact Or.inl hwrite
    · exact Or.inr (Or.inl hread)
    · rw [hpc] at hwindow
      simp [Reactor.window] at hwindow
    · rw [hpc] at hwindow
      simp [Reactor.window] at hwindow
  · intro call hrisk hunseen
    exact (controlStep_keeps hs.counted hstep hrisk).wakeComing hunseen
      (hs.covered call)

/-- Away from the way into an unbounded wait only the bookkeeping matters. -/
theorem Inv.of_calm {t : Loop Task} (hcalm : t.reactor.calm = true)
    (hcounted : t.posted.Counts t.reactor.local)
    (hwindowed : t.phase = .waiting → t.reactor.window = true)
    (htoken : t.phase = .notified → (∃ call, CallPc.write call ∈ t.calls) ∨
      0 < t.eventfd ∨ t.reactor = .draining ∨ t.reactor = .consuming) :
    Inv t where
  counted := hcounted
  windowed := hwindowed
  announced := by
    intro hasleep
    rw [Reactor.asleep_of_calm hcalm] at hasleep
    simp at hasleep
  token := htoken
  covered := by
    intro call hrisk
    rw [Loop.atRisk_eq_false_of_calm hcalm] at hrisk
    simp at hrisk

/-- Outside the reading of the eventfd, a claimed token is a write that is
still to come or a readable eventfd. -/
theorem Inv.token_cases {s : Loop Task} (hs : Inv s)
    (hphase : s.phase = .notified) (hdraining : s.reactor ≠ .draining)
    (hconsuming : s.reactor ≠ .consuming) :
    (∃ call, CallPc.write call ∈ s.calls) ∨ 0 < s.eventfd := by
  rcases hs.token hphase with hwrite | hread | hpc | hpc
  · exact Or.inl hwrite
  · exact Or.inr hread
  · exact absurd hpc hdraining
  · exact absurd hpc hconsuming

theorem prepareWait_inv {s : Loop Task} {mode : WaitMode} (hs : Inv s)
    (hpc : s.reactor = .prepare mode) :
    Inv { s with reactor := .blocked mode, phase := s.phase.beginWait } where
  counted := by
    have hcounted := hs.counted
    rw [hpc] at hcounted
    exact hcounted
  windowed := fun _ => rfl
  announced := fun _ => Phase.beginWait_ne_running _
  token := by
    intro hnotified
    rw [Phase.beginWait_eq_notified] at hnotified
    rcases hs.token_cases hnotified (by simp [hpc]) (by simp [hpc]) with
      hwrite | hread
    · exact Or.inl hwrite
    · exact Or.inr (Or.inl hread)
  covered := by
    intro call hrisk hunseen
    exact (Keeps.prepareWait hpc hrisk).wakeComing hunseen (hs.covered call)

/-- Leaving the blocking call: the token, if claimed, is still on its way or in
the eventfd. -/
theorem leaveWait_inv {s : Loop Task} {pc : Reactor Task} (hs : Inv s)
    (hcounted : s.posted.Counts pc.local) (hcalm : pc.calm = true)
    (hwindow : s.phase = .waiting → pc.window = true)
    (hdraining : s.reactor ≠ .draining) (hconsuming : s.reactor ≠ .consuming) :
    Inv { s with reactor := pc } := by
  refine Inv.of_calm hcalm hcounted hwindow ?_
  intro hnotified
  rcases hs.token_cases hnotified hdraining hconsuming with hwrite | hread
  · exact Or.inl hwrite
  · exact Or.inr (Or.inl hread)

theorem finishExchange_inv {s : Loop Task} {failed : Bool} (hs : Inv s)
    (hpc : s.reactor = .closing failed) :
    Inv { s with
      reactor := afterWait failed, phase := s.phase.finishExchange } := by
  have hcounted := hs.counted
  rw [hpc] at hcounted
  refine Inv.of_calm (afterWait_calm _) ?_ ?_ ?_
  · rw [afterWait_local]
    exact hcounted
  · intro hwaiting
    cases hphase : s.phase <;> simp [hphase, Phase.finishExchange] at hwaiting
  · intro hnotified
    rw [Phase.finishExchange_eq_notified] at hnotified
    rcases hs.token_cases hnotified (by simp [hpc]) (by simp [hpc]) with
      hwrite | hread
    · exact Or.inl hwrite
    · exact Or.inr (Or.inl hread)

theorem waitStep_inv {s t : Loop Task} {a : Action Task} (hs : Inv s)
    (hstep : waitStep s a = some t) : Inv t := by
  have hcounted := hs.counted
  unfold waitStep at hstep
  split at hstep
  · next mode hpc =>
      obtain rfl := Option.some.inj hstep
      exact prepareWait_inv hs hpc
  · next mode hpc =>
      obtain rfl := Option.some.inj hstep
      rw [hpc] at hcounted
      exact leaveWait_inv hs hcounted rfl (fun _ => rfl) (by simp [hpc])
        (by simp [hpc])
  · next mode hpc =>
      split at hstep
      · obtain rfl := Option.some.inj hstep
        rw [hpc] at hcounted
        exact leaveWait_inv hs hcounted rfl (fun _ => rfl) (by simp [hpc])
          (by simp [hpc])
      · simp at hstep
  · next mode hpc =>
      obtain rfl := Option.some.inj hstep
      rw [hpc] at hcounted
      exact leaveWait_inv hs hcounted rfl (fun _ => rfl) (by simp [hpc])
        (by simp [hpc])
  · next hpc =>
      rw [hpc] at hcounted
      split at hstep
      · obtain rfl := Option.some.inj hstep
        exact Inv.of_calm rfl hcounted (fun _ => rfl)
          (fun _ => Or.inr (Or.inr (Or.inl rfl)))
      · obtain rfl := Option.some.inj hstep
        exact Inv.of_calm rfl hcounted (fun _ => rfl)
          (fun _ => Or.inr (Or.inr (Or.inr rfl)))
  · next hpc =>
      obtain rfl := Option.some.inj hstep
      rw [hpc] at hcounted
      exact Inv.of_calm rfl hcounted (fun _ => rfl)
        (by simp [Phase.consumeNotification])
  · next failed hpc =>
      rw [hpc] at hcounted
      split at hstep
      · obtain rfl := Option.some.inj hstep
        exact leaveWait_inv hs hcounted rfl (fun _ => rfl) (by simp [hpc])
          (by simp [hpc])
      · next hload =>
          obtain rfl := Option.some.inj hstep
          refine leaveWait_inv hs ?_ (afterWait_calm _) ?_ (by simp [hpc])
            (by simp [hpc])
          · rw [afterWait_local]
            exact hcounted
          · intro hwaiting
            rw [hwaiting] at hload
            exact absurd rfl hload
  · next failed hpc =>
      obtain rfl := Option.some.inj hstep
      exact finishExchange_inv hs hpc
  · simp at hstep

theorem userStep_inv {s t : Loop Task} {a : Action Task} (hs : Inv s)
    (hstep : userStep s a = some t) : Inv t := by
  unfold userStep at hstep
  repeat' split at hstep
  all_goals simp only [reduceCtorEq, Option.some.injEq] at hstep
  all_goals
    next huser =>
      subst hstep
      refine Inv.of_calm (Reactor.calm_of_userCode huser) ?_ hs.windowed hs.token
      first
        | exact hs.counted
        | exact hs.counted.post _

theorem Loop.atRisk_congr {s t : Loop Task} (hreactor : t.reactor = s.reactor)
    (htimers : t.timers = s.timers) (call : Call) :
    t.atRisk call = s.atRisk call := by
  cases call <;> simp only [Loop.atRisk, Loop.gap, hreactor, htimers]

/-- A foreign step that leaves the phase alone keeps the invariant if it keeps
the pending writes and covers what the reactor would otherwise sleep
through. -/
theorem Inv.foreign {s t : Loop Task} (hs : Inv s)
    (hreactor : t.reactor = s.reactor) (htimers : t.timers = s.timers)
    (hphase : t.phase = s.phase) (hcounted : t.posted.Counts s.reactor.local)
    (hwrites : ∀ call, CallPc.write call ∈ s.calls →
      CallPc.write call ∈ t.calls ∨ 0 < t.eventfd)
    (heventfd : s.eventfd ≤ t.eventfd)
    (hcovered : ∀ call, s.atRisk call = true → t.unseen call = true →
      t.wakeComing call) : Inv t where
  counted := by rw [hreactor]; exact hcounted
  windowed := by rw [hphase, hreactor]; exact hs.windowed
  announced := by rw [hphase, hreactor]; exact hs.announced
  token := by
    intro hnotified
    rw [hreactor]
    rcases hs.token (hphase ▸ hnotified) with ⟨call, hwrite⟩ | hread | hpc
    · rcases hwrites call hwrite with hstill | hnow
      · exact Or.inl ⟨call, hstill⟩
      · exact Or.inr (Or.inl hnow)
    · exact Or.inr (Or.inl (Nat.lt_of_lt_of_le hread heventfd))
    · exact Or.inr (Or.inr hpc)
  covered := by
    intro call hrisk hunseen
    rw [Loop.atRisk_congr hreactor htimers] at hrisk
    exact hcovered call hrisk hunseen

/-- The first step of a call adds it to the calls in progress; what it did not
change stays covered, and what it did change is covered by its own
`notify()`. -/
theorem Inv.effect {s t : Loop Task} (hs : Inv s) (started : List CallPc)
    (hreactor : t.reactor = s.reactor) (htimers : t.timers = s.timers)
    (hphase : t.phase = s.phase) (heventfd : t.eventfd = s.eventfd)
    (hcounted : t.posted.Counts s.reactor.local)
    (hcalls : t.calls = started ++ s.calls)
    (hunseen : ∀ call, t.unseen call = true →
      CallPc.load call ∈ started ∨ s.unseen call = true) : Inv t := by
  refine hs.foreign hreactor htimers hphase hcounted ?_
    (Nat.le_of_eq heventfd.symm) ?_
  · intro call hwrite
    rw [hcalls]
    exact Or.inl (List.mem_append_right _ hwrite)
  · intro call hrisk hnow
    rw [Loop.wakeComing, hphase, hreactor, hcalls]
    rcases hunseen call hnow with hown | hbefore
    · exact Or.inr (Or.inl (List.mem_append_left _ hown))
    · rcases hs.covered call hrisk hbefore with hnotified | hload | hexchange
      · exact Or.inl hnotified
      · exact Or.inr (Or.inl (List.mem_append_right _ hload))
      · exact Or.inr (Or.inr ⟨hexchange.1, List.mem_append_right _ hexchange.2⟩)

theorem post_inv {s : Loop Task} (hs : Inv s) (task : Task) :
    Inv { s with
      posted := s.posted.post task, calls := .load .post :: s.calls } := by
  refine hs.effect [.load .post] rfl rfl rfl rfl
    (hs.counted.post task) rfl ?_
  intro call hunseen
  cases call <;>
    simp_all [Loop.unseen, Loop.hasWork, PostedQueue.post,
      PostedQueue.hasPendingTasks]

theorem stop_inv {s : Loop Task} (hs : Inv s) :
    Inv { s with stopped := true, calls := .load .stop :: s.calls } := by
  refine hs.effect [.load .stop] rfl rfl rfl rfl hs.counted rfl ?_
  intro call hunseen
  cases call <;> simp_all [Loop.unseen, Loop.hasWork]

theorem guards_inv {s : Loop Task} (hs : Inv s) {guards : Nat}
    (hguards : 0 < guards) : Inv { s with workGuards := guards } := by
  refine hs.effect [] rfl rfl rfl rfl hs.counted rfl ?_
  intro call hunseen
  cases call <;> simp_all [Loop.unseen, Loop.hasWork]

theorem lastGuard_inv {s : Loop Task} (hs : Inv s) :
    Inv { s with
      workGuards := 0, calls := .load .removeGuard :: s.calls } := by
  refine hs.effect [.load .removeGuard] rfl rfl rfl rfl
    hs.counted rfl ?_
  intro call hunseen
  cases call <;> simp_all [Loop.unseen, Loop.hasWork]

theorem wakeup_inv {s : Loop Task} (hs : Inv s) :
    Inv { s with calls := .load .wakeup :: s.calls } :=
  hs.effect [.load .wakeup] rfl rfl rfl rfl hs.counted rfl
    (fun _ hunseen => Or.inr hunseen)

theorem mem_erase_of_mem {calls : List CallPc} {old new : CallPc}
    (hne : new ≠ old) (hmem : new ∈ calls) : new ∈ calls.erase old :=
  (List.mem_erase_of_ne hne).mpr hmem

/-- The load of `notify()` outside the wait window: the reactor is in its gap
or already announced, so a phase other than `waiting` can only be
`notified`. -/
theorem notifyLoad_notified {s : Loop Task} {call : Call} (hs : Inv s)
    (hheeds : heedsGap s (.notifyLoad call) = true)
    (hload : ¬ s.phase.notifyLoad = true) (hrisk : s.atRisk call = true) :
    s.phase = .notified := by
  simp only [heedsGap, Bool.not_eq_true', Bool.and_eq_false_iff,
    beq_eq_false_iff_ne] at hheeds
  simp only [Loop.atRisk, Bool.or_eq_true] at hrisk
  have hrunning : s.phase ≠ .running := by
    rcases hrisk with hgap | hasleep
    · rcases hheeds with hno | hyes
      · rw [hgap] at hno
        simp at hno
      · exact hyes
    · exact hs.announced hasleep
  cases hphase : s.phase <;> simp_all [Phase.notifyLoad]

theorem notifyLoad_inv {s t : Loop Task} {call : Call} (hs : Inv s)
    (hheeds : heedsGap s (.notifyLoad call) = true)
    (hstep : foreignStep s (.notifyLoad call) = some t) : Inv t := by
  simp only [foreignStep] at hstep
  repeat' split at hstep
  all_goals simp only [reduceCtorEq, Option.some.injEq] at hstep
  · next _ hload =>
      subst hstep
      refine hs.foreign rfl rfl rfl hs.counted ?_ (Nat.le_refl _) ?_
      · intro other hwrite
        exact Or.inl (List.mem_append_right _ (mem_erase_of_mem (by simp) hwrite))
      · intro other hrisk hunseen
        rcases hs.covered other hrisk hunseen with hnotified | hother | hother
        · exact Or.inl hnotified
        · by_cases hsame : other = call
          · subst hsame
            have hasleep : s.reactor.asleep = true := by
              simp only [Loop.atRisk, Bool.or_eq_true] at hrisk
              rcases hrisk with hgap | hasleep
              · have hwindow := hs.windowed (Phase.notifyLoad_eq_true.mp hload)
                rw [Loop.gap_not_window hgap] at hwindow
                simp at hwindow
              · exact hasleep
            exact Or.inr (Or.inr ⟨hasleep, List.mem_append_left _ (by simp)⟩)
          · exact Or.inr (Or.inl (List.mem_append_right _
              (mem_erase_of_mem (by simp [hsame]) hother)))
        · exact Or.inr (Or.inr ⟨hother.1, List.mem_append_right _
            (mem_erase_of_mem (by simp) hother.2)⟩)
  · next _ hload =>
      subst hstep
      refine hs.foreign rfl rfl rfl hs.counted ?_ (Nat.le_refl _) ?_
      · intro other hwrite
        exact Or.inl (mem_erase_of_mem (by simp) hwrite)
      · intro other hrisk hunseen
        rcases hs.covered other hrisk hunseen with hnotified | hother | hother
        · exact Or.inl hnotified
        · by_cases hsame : other = call
          · subst hsame
            have hnotified : s.phase = .notified :=
              notifyLoad_notified hs hheeds hload hrisk
            exact Or.inl hnotified
          · exact Or.inr (Or.inl (mem_erase_of_mem (by simp [hsame]) hother))
        · exact Or.inr (Or.inr ⟨hother.1, mem_erase_of_mem (by simp) hother.2⟩)

theorem notifyExchange_inv {s t : Loop Task} {call : Call} (hs : Inv s)
    (hstep : foreignStep s (.notifyExchange call) = some t) : Inv t := by
  simp only [foreignStep] at hstep
  repeat' split at hstep
  all_goals simp only [reduceCtorEq, Option.some.injEq] at hstep
  · next _ phase hexchange =>
      have hphase : phase = .notified := by
        cases hwas : s.phase <;> simp_all [Phase.notifyExchange]
      subst hstep hphase
      exact {
        counted := hs.counted
        windowed := by simp
        announced := by simp
        token := fun _ => Or.inl ⟨call, List.mem_append_left _ (by simp)⟩
        covered := fun _ _ _ => Or.inl rfl }
  · next _ hexchange =>
      subst hstep
      refine hs.foreign rfl rfl rfl hs.counted ?_ (Nat.le_refl _) ?_
      · intro other hwrite
        exact Or.inl (mem_erase_of_mem (by simp) hwrite)
      · intro other hrisk hunseen
        rcases hs.covered other hrisk hunseen with hnotified | hother | hother
        · exact Or.inl hnotified
        · exact Or.inr (Or.inl (mem_erase_of_mem (by simp) hother))
        · have hrunning := hs.announced hother.1
          left
          cases hwas : s.phase <;> simp_all [Phase.notifyExchange, Loop.advance]

theorem eventfdWrite_inv {s t : Loop Task} {call : Call} (hs : Inv s)
    (hstep : foreignStep s (.eventfdWrite call) = some t) : Inv t := by
  simp only [foreignStep] at hstep
  split at hstep
  · obtain rfl := Option.some.inj hstep
    refine hs.foreign rfl rfl rfl hs.counted ?_ (Nat.le_succ _) ?_
    · intro other _
      exact Or.inr (Nat.succ_pos _)
    · intro other hrisk hunseen
      rcases hs.covered other hrisk hunseen with hnotified | hother | hother
      · exact Or.inl hnotified
      · exact Or.inr (Or.inl (mem_erase_of_mem (by simp) hother))
      · exact Or.inr (Or.inr ⟨hother.1, mem_erase_of_mem (by simp) hother.2⟩)
  · simp at hstep

theorem foreignStep_inv {s t : Loop Task} {a : Action Task} (hs : Inv s)
    (hheeds : heedsGap s a = true) (hstep : foreignStep s a = some t) :
    Inv t := by
  cases a with
  | post task =>
      obtain rfl := Option.some.inj hstep
      exact post_inv hs task
  | stop =>
      obtain rfl := Option.some.inj hstep
      exact stop_inv hs
  | addGuard =>
      obtain rfl := Option.some.inj hstep
      exact guards_inv hs (Nat.succ_pos _)
  | removeGuard =>
      simp only [foreignStep] at hstep
      repeat' split at hstep
      all_goals simp only [reduceCtorEq, Option.some.injEq] at hstep
      · subst hstep
        exact lastGuard_inv hs
      · subst hstep
        exact guards_inv hs (by omega)
  | wakeup =>
      obtain rfl := Option.some.inj hstep
      exact wakeup_inv hs
  | notifyLoad call => exact notifyLoad_inv hs hheeds hstep
  | notifyExchange call => exact notifyExchange_inv hs hstep
  | eventfdWrite call => exact eventfdWrite_inv hs hstep
  | _ => simp [foreignStep] at hstep

theorem step_inv {s t : Loop Task} {a : Action Task} (hs : Inv s)
    (hheeds : heedsGap s a = true) (hstep : step s a = some t) : Inv t := by
  simp only [step, Option.or_eq_some_iff] at hstep
  rcases hstep with hcontrol | ⟨_, hwait | ⟨_, huser | ⟨_, hforeign⟩⟩⟩
  · exact controlStep_inv hs hcontrol
  · exact waitStep_inv hs hwait
  · exact userStep_inv hs huser
  · exact foreignStep_inv hs hheeds hforeign

theorem start_inv : Inv (system Task).start where
  counted := rfl
  windowed := by simp [system]
  announced := by simp [system, Reactor.asleep]
  token := by simp [system]
  covered := by
    intro call hrisk
    rw [Loop.atRisk_eq_false_of_calm rfl] at hrisk
    simp at hrisk

/-- The reactor sleeps without a timeout, the eventfd is not readable and no
foreign call is in progress: nothing is left that could wake it. -/
def Loop.stuck (s : Loop Task) : Bool :=
  s.reactor.asleep && s.eventfd == 0 && s.calls.isEmpty

/-- What makes such a sleep harmless: no posted task, no stop request, and work
left to wait for. -/
def Loop.idle (s : Loop Task) : Bool :=
  s.posted.queue.isEmpty && !s.stopped && s.hasWork

/-- As long as no `notify()` looks at the phase inside the gap of its call,
the reactor sleeps only when there is nothing to do, whatever the number of
foreign threads and the interleaving. -/
theorem stuck_imp_idle_of_heedsGap {s : Loop Task}
    (hs : (system Task).ReachableUnder (fun s a => heedsGap s a = true) s)
    (hstuck : s.stuck = true) : s.idle = true := by
  have hinv : Inv s := hs.invariant start_inv
    (fun _ _ _ hinv hheeds hstep => step_inv hinv hheeds hstep)
  simp only [Loop.stuck, Bool.and_eq_true, beq_iff_eq, List.isEmpty_iff]
    at hstuck
  obtain ⟨⟨hasleep, heventfd⟩, hcalls⟩ := hstuck
  have hseen : ∀ call, s.unseen call = false := by
    intro call
    by_contra hunseen
    rw [Bool.not_eq_false] at hunseen
    have hrisk : s.atRisk call = true := by simp [Loop.atRisk, hasleep]
    rcases hinv.covered call hrisk hunseen with hnotified | hload | hexchange
    · have hpc : s.reactor = .blocked .forever := by
        unfold Reactor.asleep at hasleep
        split at hasleep <;> simp_all
      rcases hinv.token_cases hnotified (by simp [hpc]) (by simp [hpc]) with
        ⟨other, hwrite⟩ | hread
      · simp [hcalls] at hwrite
      · omega
    · simp [hcalls] at hload
    · simp [hcalls] at hexchange
  have hpost := hseen .post
  have hstop := hseen .stop
  have hguard := hseen .removeGuard
  simp_all [Loop.idle, Loop.unseen]

/-- One iteration of `run` up to `prepare_wait`, with a work guard held and
nothing posted. -/
def iterationToPrepare : List (Action Unit) :=
  [.readStopped, .readGuards, .swapPosted, .takeTask, .readStopped,
    .readGuards, .timersDone, .readStopped, .readGuards, .nextWait .forever,
    .lastLook]

/-- A post that arrives during the wait is claimed, written, drained and run;
then the reactor sleeps again with nothing to do. -/
def postDuringWait : List (Action Unit) :=
  ([.addGuard, .enter] : List (Action Unit)) ++ iterationToPrepare ++
    ([.prepareWait, .post (), .notifyLoad .post, .notifyExchange .post,
      .eventfdWrite .post, .waitReturns true, .drainEventfd, .drainEventfd,
      .consume, .finishLoad, .dispatched, .readStopped, .readGuards,
      .swapPosted, .takeTask, .taskEnds, .takeTask, .readStopped, .readGuards,
      .timersDone, .readStopped, .readGuards, .nextWait .forever, .lastLook,
      .prepareWait] : List (Action Unit))

theorem stuck_imp_idle_postDuringWait :
    ∃ s : Loop Unit, s.stuck = true ∧ s.idle = true := by
  obtain ⟨s, hs, hstuck⟩ :=
    TransitionSystem.exists_reachableUnder_of_execUnder (system Unit)
      (fun s a => heedsGap s a = true) postDuringWait Loop.stuck (by decide)
  exact ⟨s, hstuck, stuck_imp_idle_of_heedsGap hs hstuck⟩

/-- The lost wake-up: the post falls between the last look at the counter and
`prepare_wait`, so `notify()` finds the phase `running` and writes nothing,
and the reactor then sleeps over the posted task. -/
def postInGap : List (Action Unit) :=
  ([.addGuard, .enter] : List (Action Unit)) ++ iterationToPrepare ++
    ([.post (), .notifyLoad .post, .prepareWait] : List (Action Unit))

theorem stuck_not_idle_postInGap :
    ¬ ∀ s : Loop Unit, (system Unit).Reachable s → s.stuck = true →
      s.idle = true := by
  intro hall
  obtain ⟨s, hs, hbad⟩ := TransitionSystem.exists_reachable_of_exec
    (system Unit) postInGap (fun s => s.stuck && !s.idle) (by decide)
  simp only [Bool.and_eq_true, Bool.not_eq_true'] at hbad
  rw [hall s hs hbad.1] at hbad
  simp at hbad

end EventLoop

end Iocoro
