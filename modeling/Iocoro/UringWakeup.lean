/-
Wake-ups of `backend_uring`.  An interest change waits in a shared list for the next
flush of the reactor thread, so the call that queued it must not find the reactor
asleep behind that flush.  What a poll of a descriptor is for does not matter here:
the kernel may complete anything at any time.
-/
import Iocoro.EventLoop
import Iocoro.Uring

namespace Iocoro

namespace Uring

namespace Wakeup

open EventLoop (WaitMode)

/-- The two calls of `flush_pending_updates` in `wait`. -/
inductive Flush where
  | first (mode : WaitMode)
  | final
deriving DecidableEq, Repr

/-- Where the reactor thread stands in `wait`, with what it has still to submit.
`draining`, `consuming` and `rearming` are `handle_cqe` on a completion of the
eventfd; `unarmed` says that its poll could not be armed again. -/
inductive Reactor where
  | outside
  | entering (mode : WaitMode)
  | flushing (flush : Flush) (removes : List PendingRemove) (adds : List PendingAdd)
  | blocked (mode : WaitMode)
  | handling (arms : List PendingAdd)
  | draining (arms : List PendingAdd)
  | consuming (arms : List PendingAdd)
  | rearming (arms : List PendingAdd)
  | arming (arms : List PendingAdd)
  | finishing (unarmed : Bool)
  | closing (unarmed : Bool)
  | failed
deriving DecidableEq, Repr

/-- A call that is on its way through `wakeup`. -/
inductive CallPc where
  | load
  | exchange
  | write
deriving DecidableEq, Repr

/-- `wakePolls` counts the polls on the eventfd that are armed; the constructor has
armed one. -/
structure State where
  backend : Backend := {}
  phase : Phase := .running
  eventfd : Nat := 0
  wakePolls : Nat := 1
  cq : List Cqe := []
  reactor : Reactor := .outside
  calls : List CallPc := []

/-- The steps of foreign threads, of the reactor and of the kernel.  `wakeup` is a
call from elsewhere, such as `post` or `stop`. -/
inductive Action where
  | addFd (fd : BitVec 32)
  | removeFd (fd : BitVec 32)
  | wakeup
  | notifyLoad
  | notifyExchange
  | eventfdWrite
  | enter (mode : WaitMode)
  | flush
  | submit
  | turn
  | waitReturns (completed : Bool)
  | handle (index : Nat)
  | drainEventfd
  | consume
  | armWakeup
  | throws
  | finishLoad
  | finishExchange
  | wakes
  | completes (cqe : Cqe)
deriving DecidableEq, Repr

def isWakeup (cqe : Cqe) : Bool := decide (unpackTag cqe.data = tagWakeup)

/-- The section under `poll_mtx_`; the call goes on to `wakeup` or returns. -/
def State.change (s : State) (result : Backend × Bool) : State :=
  { s with
    backend := result.1
    calls := if result.2 then .load :: s.calls else s.calls }

/-- Replace one call by its next stage. -/
def State.advance (s : State) (old : CallPc) (new : List CallPc) : State :=
  { s with calls := new ++ s.calls.erase old }

/-- `wakeup`; the eventfd write succeeds. -/
def State.notifyLoad (s : State) : Option State :=
  if CallPc.load ∈ s.calls then
    if s.phase.notifyLoad then some (s.advance .load [.exchange])
    else some (s.advance .load [])
  else none

def State.notifyExchange (s : State) : Option State :=
  if CallPc.exchange ∈ s.calls then
    match s.phase.notifyExchange with
    | some phase => some { s.advance .exchange [.write] with phase := phase }
    | none => some (s.advance .exchange [])
  else none

def State.eventfdWrite (s : State) : Option State :=
  if CallPc.write ∈ s.calls then
    some { s.advance .write [] with eventfd := s.eventfd + 1 }
  else none

/-- `process_events`: `prepare_wait`, unless the wait is a poll, and then `wait`. -/
def State.enter (s : State) (mode : WaitMode) : Option State :=
  match s.reactor with
  | .outside => some { s with
      reactor := .entering mode
      phase := if mode = .poll then s.phase else s.phase.beginWait }
  | _ => none

/-- `flush_pending_updates` takes the shared lists. -/
def State.flush (s : State) : Option State :=
  let taken (flush : Flush) : State :=
    { s with
      backend := { s.backend with pendingAdds := [], pendingRemoves := [] }
      reactor := .flushing flush s.backend.pendingRemoves s.backend.pendingAdds }
  match s.reactor with
  | .entering mode => some (taken (.first mode))
  | .arming [] => some (taken .final)
  | _ => none

/-- The next submission of a flush, cancellations first, or of the re-arms. -/
def State.submit (s : State) : Option State :=
  match s.reactor with
  | .flushing flush (_ :: removes) adds =>
      some { s with reactor := .flushing flush removes adds }
  | .flushing flush [] (_ :: adds) =>
      some { s with reactor := .flushing flush [] adds }
  | .arming (_ :: arms) => some { s with reactor := .arming arms }
  | _ => none

/-- `wait` goes on after a flush or after the completions. -/
def State.turn (s : State) : Option State :=
  match s.reactor with
  | .flushing (.first mode) [] [] => some { s with reactor := .blocked mode }
  | .flushing .final [] [] => some { s with reactor := .finishing false }
  | .handling arms => some { s with reactor := .arming arms }
  | _ => none

/-- The wait for a completion ends with one, or early: a timeout or a signal. -/
def State.waitReturns (s : State) (completed : Bool) : Option State :=
  match s.reactor with
  | .blocked _ =>
      if completed then
        if s.cq = [] then none else some { s with reactor := .handling [] }
      else some { s with reactor := .finishing false }
  | _ => none

/-- `handle_cqe`. -/
def State.handle (s : State) (index : Nat) : Option State :=
  match s.reactor with
  | .handling arms => s.cq[index]?.map fun cqe =>
      if isWakeup cqe then
        { s with reactor := .draining arms, cq := s.cq.eraseIdx index }
      else
        let handled := s.backend.handleCqe cqe
        { s with
          backend := handled.backend
          reactor := .handling (arms ++ handled.arm.toList)
          cq := s.cq.eraseIdx index }
  | _ => none

/-- One read of `drain_eventfd`. -/
def State.drainEventfd (s : State) : Option State :=
  match s.reactor with
  | .draining arms =>
      if 0 < s.eventfd then some { s with eventfd := 0 }
      else some { s with reactor := .consuming arms }
  | _ => none

def State.consume (s : State) : Option State :=
  match s.reactor with
  | .consuming arms => some { s with
      reactor := .rearming arms, phase := s.phase.consumeNotification }
  | _ => none

def State.armWakeup (s : State) : Option State :=
  match s.reactor with
  | .rearming arms => some { s with
      reactor := .handling arms, wakePolls := s.wakePolls + 1 }
  | _ => none

/-- The wait or the submission of a poll fails and the exception leaves `wait`. -/
def State.throws (s : State) : Option State :=
  match s.reactor with
  | .flushing _ [] (_ :: _) | .blocked _ | .arming (_ :: _) =>
      some { s with reactor := .finishing false }
  | .rearming _ => some { s with reactor := .finishing true }
  | _ => none

/-- `process_events` treats an exception as fatal for the instance.  Here a loop may
be started again after one, unless it was the poll on the eventfd that could not be
armed. -/
def afterWait : Bool → Reactor
  | true => .failed
  | false => .outside

def State.finishLoad (s : State) : Option State :=
  match s.reactor with
  | .finishing unarmed =>
      if s.phase.finishLoad then some { s with reactor := .closing unarmed }
      else some { s with reactor := afterWait unarmed }
  | _ => none

def State.finishExchange (s : State) : Option State :=
  match s.reactor with
  | .closing unarmed => some { s with
      reactor := afterWait unarmed, phase := s.phase.finishExchange }
  | _ => none

/-- A poll on the eventfd completes when it is readable. -/
def State.wakes (s : State) : Option State :=
  if 0 < s.wakePolls ∧ 0 < s.eventfd then
    some { s with
      wakePolls := s.wakePolls - 1
      cq := s.cq ++ [⟨packFd 0 tagWakeup 0, 1⟩] }
  else none

def State.completes (s : State) (cqe : Cqe) : Option State :=
  if isWakeup cqe then none else some { s with cq := s.cq ++ [cqe] }

def step (s : State) : Action → Option State
  | .addFd fd => some (s.change (s.backend.addFd fd))
  | .removeFd fd => some (s.change (s.backend.removeFd fd))
  | .wakeup => some (s.change (s.backend, true))
  | .notifyLoad => s.notifyLoad
  | .notifyExchange => s.notifyExchange
  | .eventfdWrite => s.eventfdWrite
  | .enter mode => s.enter mode
  | .flush => s.flush
  | .submit => s.submit
  | .turn => s.turn
  | .waitReturns completed => s.waitReturns completed
  | .handle index => s.handle index
  | .drainEventfd => s.drainEventfd
  | .consume => s.consume
  | .armWakeup => s.armWakeup
  | .throws => s.throws
  | .finishLoad => s.finishLoad
  | .finishExchange => s.finishExchange
  | .wakes => s.wakes
  | .completes cqe => s.completes cqe

def system : TransitionSystem State Action where
  start := {}
  step := step

/-! ### The wait window -/

/-- Nothing waits for a flush. -/
def quiet (b : Backend) : Prop := b.pendingAdds = [] ∧ b.pendingRemoves = []

/-- The wait may block, and has been announced. -/
def blocking (mode : WaitMode) : Bool := mode != .poll

/-- From `prepare_wait` until the wait for a completion is over. -/
def Reactor.committed : Reactor → Bool
  | .entering mode | .flushing (.first mode) _ _ | .blocked mode => blocking mode
  | _ => false

/-- The same after the first flush has taken the lists. -/
def Reactor.past : Reactor → Bool
  | .flushing (.first mode) _ _ | .blocked mode => blocking mode
  | _ => false

/-- The notification is about to be consumed. -/
def Reactor.drains : Reactor → Bool
  | .draining _ | .consuming _ => true
  | _ => false

/-- Polls on the eventfd that have completed and are the reactor's to arm again. -/
def Reactor.owes : Reactor → Nat
  | .draining _ | .consuming _ | .rearming _ | .finishing true | .closing true
  | .failed => 1
  | _ => 0

/-- The poll on the eventfd is armed, has completed, or is the reactor's to arm; a
claimed token is on its way to a reactor that has not consumed it; and behind the
first flush a change is covered by a token or by a call that is about to claim one. -/
structure Inv (s : State) : Prop where
  poll : s.wakePolls + s.cq.countP isWakeup + s.reactor.owes = 1
  announced : s.reactor.committed = true → s.phase ≠ .running
  token : s.phase = .notified →
    .write ∈ s.calls ∨ 0 < s.eventfd ∨ s.reactor.drains = true
  covered : s.reactor.past = true → quiet s.backend ∨ s.phase = .notified ∨
    .load ∈ s.calls ∨ .exchange ∈ s.calls

theorem Reactor.committed_of_past {pc : Reactor} (hpast : pc.past = true) :
    pc.committed = true := by
  unfold Reactor.past at hpast
  split at hpast <;> simp_all [Reactor.committed]

theorem start_inv : Inv system.start where
  poll := rfl
  announced := by simp [system, Reactor.committed]
  token := by simp [system]
  covered := by simp [system, Reactor.past]

/-! ### Foreign threads -/

theorem addFd_quiet {b : Backend} {fd : BitVec 32} (hsilent : (b.addFd fd).2 = false)
    (hb : quiet b) : quiet (b.addFd fd).1 := by
  simp only [Backend.addFd] at hsilent ⊢
  split
  · next harmed =>
      rw [if_pos harmed] at hsilent
      split
      · exact hb
      · next hmask =>
          rw [if_neg hmask] at hsilent
          simp at hsilent
  · next harmed =>
      rw [if_neg harmed] at hsilent
      split at hsilent <;> simp at hsilent

theorem removeFd_quiet {b : Backend} {fd : BitVec 32}
    (hsilent : (b.removeFd fd).2 = false) (hb : quiet b) :
    quiet (b.removeFd fd).1 := by
  simp only [Backend.removeFd] at hsilent ⊢
  split
  · exact hb
  · next st hst =>
      rw [hst] at hsilent
      simp only at hsilent ⊢
      split
      · next harmed =>
          rw [if_pos harmed] at hsilent
          simp at hsilent
      · exact hb

theorem change_inv {s : State} (hs : Inv s) {result : Backend × Bool}
    (hsilent : result.2 = false → quiet s.backend → quiet result.1) :
    Inv (s.change result) where
  poll := hs.poll
  announced := hs.announced
  token hnotified := by
    rcases hs.token hnotified with hwrite | hrest
    · left
      simp only [State.change]
      split
      · exact List.mem_cons_of_mem _ hwrite
      · exact hwrite
    · exact .inr hrest
  covered hpast := by
    cases hwakes : result.2 with
    | true => simp [State.change, hwakes]
    | false =>
        rcases hs.covered hpast with hquiet | hcoming
        · exact .inl (hsilent hwakes hquiet)
        · simpa [State.change, hwakes] using .inr hcoming

/-- A call moves on; while the reactor is past its flush, one that looks at the phase
leaves a wake-up behind. -/
theorem notifyLoad_inv {s t : State} (hs : Inv s) (hstep : s.notifyLoad = some t) :
    Inv t := by
  simp only [State.notifyLoad, Option.ite_none_right_eq_some] at hstep
  obtain ⟨-, hstep⟩ := hstep
  split at hstep
  · next hwaiting =>
      obtain rfl := Option.some.inj hstep
      exact {
        poll := hs.poll
        announced := hs.announced
        token := fun hnotified => by
          rw [Phase.notifyLoad_eq_true] at hwaiting
          simp [State.advance, hwaiting] at hnotified
        covered := fun _ => by simp [State.advance] }
  · next hphase =>
      obtain rfl := Option.some.inj hstep
      rw [Phase.notifyLoad_eq_true] at hphase
      exact {
        poll := hs.poll
        announced := hs.announced
        token := fun hnotified => by
          simpa [State.advance, List.mem_erase_of_ne] using hs.token hnotified
        covered := fun hpast => by
          have hrunning := hs.announced (Reactor.committed_of_past hpast)
          right; left
          cases hcase : s.phase <;> simp_all [State.advance] }

theorem notifyExchange_inv {s t : State} (hs : Inv s)
    (hstep : s.notifyExchange = some t) : Inv t := by
  simp only [State.notifyExchange, Option.ite_none_right_eq_some] at hstep
  obtain ⟨-, hstep⟩ := hstep
  cases hphase : s.phase with
  | waiting =>
      simp only [hphase, Phase.notifyExchange, Option.some.injEq] at hstep
      subst hstep
      exact {
        poll := hs.poll
        announced := by simp
        token := fun _ => by simp [State.advance]
        covered := fun _ => .inr (.inl rfl) }
  | running =>
      simp only [hphase, Phase.notifyExchange, Option.some.injEq] at hstep
      subst hstep
      exact {
        poll := hs.poll
        announced := hs.announced
        token := by simp [State.advance, hphase]
        covered := fun hpast =>
          absurd hphase (hs.announced (Reactor.committed_of_past hpast)) }
  | notified =>
      simp only [hphase, Phase.notifyExchange, Option.some.injEq] at hstep
      subst hstep
      exact {
        poll := hs.poll
        announced := hs.announced
        token := fun _ => by
          simpa [State.advance, List.mem_erase_of_ne] using hs.token hphase
        covered := fun _ => .inr (.inl hphase) }

theorem eventfdWrite_inv {s t : State} (hs : Inv s)
    (hstep : s.eventfdWrite = some t) : Inv t := by
  simp only [State.eventfdWrite, Option.ite_none_right_eq_some,
    Option.some.injEq] at hstep
  obtain ⟨-, rfl⟩ := hstep
  exact {
    poll := hs.poll
    announced := hs.announced
    token := fun _ => .inr (.inl (Nat.succ_pos _))
    covered := fun hpast => by
      simpa [State.advance, List.mem_erase_of_ne] using hs.covered hpast }

/-! ### The reactor -/

/-- The reactor moves on and changes nothing that others see. -/
theorem Inv.move {s : State} (hs : Inv s) {old new : Reactor}
    (hpc : s.reactor = old) (howes : new.owes = old.owes)
    (hcommitted : new.committed = true → old.committed = true)
    (hpast : new.past = true → old.past = true)
    (hdrains : old.drains = true → new.drains = true) :
    Inv { s with reactor := new } where
  poll := by
    rw [howes, ← hpc]
    exact hs.poll
  announced h := hs.announced (hpc ▸ hcommitted h)
  token hnotified :=
    (hs.token hnotified).imp_right (Or.imp_right fun h => hdrains (hpc ▸ h))
  covered h := hs.covered (hpc ▸ hpast h)

theorem enter_inv {s t : State} (hs : Inv s) {mode : WaitMode}
    (hstep : s.enter mode = some t) : Inv t := by
  unfold State.enter at hstep
  split at hstep
  · next hpc =>
      obtain rfl := Option.some.inj hstep
      exact {
        poll := by simpa [hpc, Reactor.owes] using hs.poll
        announced := fun hblocking => by
          have hmode : mode ≠ .poll := by
            simpa [Reactor.committed, blocking] using hblocking
          simp [hmode]
        token := fun hnotified => by
          have hold : s.phase = .notified := by
            split at hnotified
            · exact hnotified
            · exact Phase.beginWait_eq_notified.mp hnotified
          simpa [hpc, Reactor.drains] using hs.token hold
        covered := by simp [Reactor.past] }
  · simp at hstep

theorem flush_inv {s t : State} (hs : Inv s) (hstep : s.flush = some t) : Inv t := by
  simp only [State.flush] at hstep
  split at hstep
  · next mode hpc =>
      obtain rfl := Option.some.inj hstep
      exact {
        poll := by simpa [hpc, Reactor.owes] using hs.poll
        announced := fun hcommitted => hs.announced (by rw [hpc]; exact hcommitted)
        token := fun hnotified => by
          simpa [hpc, Reactor.drains] using hs.token hnotified
        covered := fun _ => .inl ⟨rfl, rfl⟩ }
  · next hpc =>
      obtain rfl := Option.some.inj hstep
      exact {
        poll := by simpa [hpc, Reactor.owes] using hs.poll
        announced := by simp [Reactor.committed]
        token := fun hnotified => by
          simpa [hpc, Reactor.drains] using hs.token hnotified
        covered := by simp [Reactor.past] }
  · simp at hstep

theorem submit_inv {s t : State} (hs : Inv s) (hstep : s.submit = some t) :
    Inv t := by
  unfold State.submit at hstep
  split at hstep
  · next flush remove removes adds hpc =>
      obtain rfl := Option.some.inj hstep
      cases flush <;> exact hs.move hpc rfl id id id
  · next flush add adds hpc =>
      obtain rfl := Option.some.inj hstep
      cases flush <;> exact hs.move hpc rfl id id id
  · next hpc =>
      obtain rfl := Option.some.inj hstep
      exact hs.move hpc rfl id id id
  · simp at hstep

theorem turn_inv {s t : State} (hs : Inv s) (hstep : s.turn = some t) : Inv t := by
  unfold State.turn at hstep
  split at hstep
  · next hpc =>
      obtain rfl := Option.some.inj hstep
      exact hs.move hpc rfl id id id
  · next hpc =>
      obtain rfl := Option.some.inj hstep
      exact hs.move hpc rfl id id id
  · next hpc =>
      obtain rfl := Option.some.inj hstep
      exact hs.move hpc rfl id id id
  · simp at hstep

theorem waitReturns_inv {s t : State} (hs : Inv s) {completed : Bool}
    (hstep : s.waitReturns completed = some t) : Inv t := by
  unfold State.waitReturns at hstep
  split at hstep
  · next hpc =>
      split at hstep
      · obtain ⟨-, hstep⟩ := Option.ite_none_left_eq_some.mp hstep
        obtain rfl := Option.some.inj hstep
        exact hs.move hpc rfl nofun nofun id
      · obtain rfl := Option.some.inj hstep
        exact hs.move hpc rfl nofun nofun id
  · simp at hstep

theorem handle_inv {s t : State} (hs : Inv s) {index : Nat}
    (hstep : s.handle index = some t) : Inv t := by
  unfold State.handle at hstep
  split at hstep
  · next arms hpc =>
      obtain ⟨cqe, hcqe, rfl⟩ := Option.map_eq_some_iff.mp hstep
      have hpoll := hs.poll
      rw [hpc] at hpoll
      have hcount := (cq_perm hcqe).countP_eq isWakeup
      rw [List.countP_cons] at hcount
      split
      · next hwakeup =>
          exact {
            poll := by
              simp only [Reactor.owes, if_pos hwakeup] at hpoll hcount ⊢
              omega
            announced := nofun
            token := fun _ => .inr (.inr rfl)
            covered := nofun }
      · next hother =>
          exact {
            poll := by
              simp only [Reactor.owes, if_neg hother] at hpoll hcount ⊢
              omega
            announced := nofun
            token := fun hnotified => by
              simpa [hpc, Reactor.drains] using hs.token hnotified
            covered := nofun }
  · simp at hstep

theorem drainEventfd_inv {s t : State} (hs : Inv s)
    (hstep : s.drainEventfd = some t) : Inv t := by
  unfold State.drainEventfd at hstep
  split at hstep
  · next arms hpc =>
      split at hstep
      · obtain rfl := Option.some.inj hstep
        exact { hs with
          token := fun _ => .inr (.inr (by simp [hpc, Reactor.drains])) }
      · obtain rfl := Option.some.inj hstep
        exact hs.move hpc rfl nofun nofun id
  · simp at hstep

theorem consume_inv {s t : State} (hs : Inv s) (hstep : s.consume = some t) :
    Inv t := by
  unfold State.consume at hstep
  split at hstep
  · next arms hpc =>
      obtain rfl := Option.some.inj hstep
      exact {
        poll := by simpa [hpc, Reactor.owes] using hs.poll
        announced := nofun
        token := nofun
        covered := nofun }
  · simp at hstep

theorem armWakeup_inv {s t : State} (hs : Inv s) (hstep : s.armWakeup = some t) :
    Inv t := by
  unfold State.armWakeup at hstep
  split at hstep
  · next arms hpc =>
      obtain rfl := Option.some.inj hstep
      have hpoll := hs.poll
      rw [hpc] at hpoll
      exact {
        poll := by
          simp only [Reactor.owes] at hpoll ⊢
          omega
        announced := nofun
        token := fun hnotified => by
          simpa [hpc, Reactor.drains] using hs.token hnotified
        covered := nofun }
  · simp at hstep

theorem throws_inv {s t : State} (hs : Inv s) (hstep : s.throws = some t) :
    Inv t := by
  unfold State.throws at hstep
  split at hstep
  · next hpc =>
      obtain rfl := Option.some.inj hstep
      exact hs.move hpc rfl nofun nofun id
  · next hpc =>
      obtain rfl := Option.some.inj hstep
      exact hs.move hpc rfl nofun nofun id
  · next hpc =>
      obtain rfl := Option.some.inj hstep
      exact hs.move hpc rfl nofun nofun id
  · next hpc =>
      obtain rfl := Option.some.inj hstep
      exact hs.move hpc rfl nofun nofun id
  · simp at hstep

theorem finishLoad_inv {s t : State} (hs : Inv s) (hstep : s.finishLoad = some t) :
    Inv t := by
  unfold State.finishLoad at hstep
  split at hstep
  · next unarmed hpc =>
      split at hstep
      · obtain rfl := Option.some.inj hstep
        cases unarmed <;> exact hs.move hpc rfl nofun nofun id
      · obtain rfl := Option.some.inj hstep
        cases unarmed <;> exact hs.move hpc rfl nofun nofun nofun
  · simp at hstep

theorem finishExchange_inv {s t : State} (hs : Inv s)
    (hstep : s.finishExchange = some t) : Inv t := by
  unfold State.finishExchange at hstep
  split at hstep
  · next unarmed hpc =>
      obtain rfl := Option.some.inj hstep
      exact {
        poll := by
          cases unarmed <;> simpa [hpc, Reactor.owes, afterWait] using hs.poll
        announced := by cases unarmed <;> nofun
        token := fun hnotified => by
          have hold := Phase.finishExchange_eq_notified.mp hnotified
          simpa [hpc, Reactor.drains] using
            (hs.token hold).imp_right (Or.imp_right (by simp [hpc, Reactor.drains]))
        covered := by cases unarmed <;> nofun }
  · simp at hstep

/-! ### The kernel -/

theorem wakes_inv {s t : State} (hs : Inv s) (hstep : s.wakes = some t) : Inv t := by
  simp only [State.wakes, Option.ite_none_right_eq_some, Option.some.injEq] at hstep
  obtain ⟨⟨harmed, -⟩, rfl⟩ := hstep
  have hwakeup : isWakeup ⟨packFd 0 tagWakeup 0, 1⟩ = true := by decide
  have hpoll := hs.poll
  exact { hs with
    poll := by
      simp only [List.countP_append, List.countP_singleton, if_pos hwakeup]
      omega }

theorem completes_inv {s t : State} (hs : Inv s) {cqe : Cqe}
    (hstep : s.completes cqe = some t) : Inv t := by
  simp only [State.completes, Option.ite_none_left_eq_some, Option.some.injEq] at hstep
  obtain ⟨hother, rfl⟩ := hstep
  exact { hs with
    poll := by
      simp only [List.countP_append, List.countP_singleton, if_neg hother]
      exact hs.poll }

theorem step_inv {s t : State} {a : Action} (hs : Inv s)
    (hstep : step s a = some t) : Inv t := by
  cases a with
  | addFd fd =>
      obtain rfl := Option.some.inj hstep
      exact change_inv hs addFd_quiet
  | removeFd fd =>
      obtain rfl := Option.some.inj hstep
      exact change_inv hs removeFd_quiet
  | wakeup =>
      obtain rfl := Option.some.inj hstep
      exact change_inv hs fun _ hquiet => hquiet
  | notifyLoad => exact notifyLoad_inv hs hstep
  | notifyExchange => exact notifyExchange_inv hs hstep
  | eventfdWrite => exact eventfdWrite_inv hs hstep
  | enter mode => exact enter_inv hs hstep
  | flush => exact flush_inv hs hstep
  | submit => exact submit_inv hs hstep
  | turn => exact turn_inv hs hstep
  | waitReturns completed => exact waitReturns_inv hs hstep
  | handle index => exact handle_inv hs hstep
  | drainEventfd => exact drainEventfd_inv hs hstep
  | consume => exact consume_inv hs hstep
  | armWakeup => exact armWakeup_inv hs hstep
  | throws => exact throws_inv hs hstep
  | finishLoad => exact finishLoad_inv hs hstep
  | finishExchange => exact finishExchange_inv hs hstep
  | wakes => exact wakes_inv hs hstep
  | completes cqe => exact completes_inv hs hstep

/-- While an interest change waits behind a blocked reactor, a call is still on its
way to the eventfd or the eventfd is readable. -/
theorem woken_of_pending {s : State} (hs : Inv s)
    (hblocked : s.reactor = .blocked .forever) (hpending : ¬ quiet s.backend) :
    s.calls ≠ [] ∨ 0 < s.eventfd := by
  have hcovered := hs.covered (by rw [hblocked]; rfl)
  rcases hcovered.resolve_left hpending with hnotified | hload | hexchange
  · rcases hs.token hnotified with hwrite | hreadable | hdrains
    · exact .inl (List.ne_nil_of_mem hwrite)
    · exact .inr hreadable
    · simp [hblocked, Reactor.drains] at hdrains
  · exact .inl (List.ne_nil_of_mem hload)
  · exact .inl (List.ne_nil_of_mem hexchange)

/-- A reactor that is blocked without timeout, with no completion to handle, nothing
to read from the eventfd and no call in progress, has made every interest change, and
its poll on the eventfd is armed. -/
theorem quiet_of_asleep (s : State) (hs : system.Reachable s)
    (hblocked : s.reactor = .blocked .forever) (hcq : s.cq = [])
    (heventfd : s.eventfd = 0) (hcalls : s.calls = []) :
    s.backend.pendingAdds = [] ∧ s.backend.pendingRemoves = [] ∧
      s.wakePolls = 1 := by
  have hinv : Inv s := hs.invariant start_inv fun _ _ _ h hstep => step_inv h hstep
  have hquiet : quiet s.backend := by
    by_contra hpending
    rcases woken_of_pending hinv hblocked hpending with hcall | hreadable
    · exact hcall hcalls
    · omega
  have hpoll := hinv.poll
  rw [hblocked, hcq] at hpoll
  exact ⟨hquiet.1, hquiet.2, hpoll⟩

/-- `add_fd` finds the reactor blocked; it is woken, submits the poll and blocks
again. -/
theorem quiet_of_asleep_added : ∃ s, system.Reachable s ∧
    s.reactor = .blocked .forever ∧ s.cq = [] ∧ s.eventfd = 0 ∧ s.calls = [] ∧
    (s.backend.polls 5).isSome = true ∧
    s.backend.pendingAdds = [] ∧ s.backend.pendingRemoves = [] ∧
      s.wakePolls = 1 := by
  obtain ⟨s, hs, hp⟩ := TransitionSystem.exists_reachable_of_exec system
    [.enter .forever, .flush, .turn, .addFd 5, .notifyLoad, .notifyExchange,
      .eventfdWrite, .wakes, .waitReturns true, .handle 0, .drainEventfd,
      .drainEventfd, .consume, .armWakeup, .turn, .flush, .submit, .turn, .finishLoad,
      .enter .forever, .flush, .turn]
    (fun s => decide (s.reactor = .blocked .forever ∧ s.cq = [] ∧ s.eventfd = 0 ∧
      s.calls = [] ∧ (s.backend.polls 5).isSome = true)) (by decide)
  obtain ⟨hblocked, hcq, heventfd, hcalls, hentry⟩ := of_decide_eq_true hp
  exact ⟨s, hs, hblocked, hcq, heventfd, hcalls, hentry,
    quiet_of_asleep s hs hblocked hcq heventfd hcalls⟩

end Wakeup

end Uring

end Iocoro
