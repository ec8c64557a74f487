/-
`await_suspend` of `operation_awaiter`, of the resolver's `resolve_awaiter` and
of `condition_event`'s `wait_awaiter`: which of its steps use the promise of the
coroutine or the awaiter, and when the resumption of the coroutine is posted.
-/
import Iocoro.ConditionResume
import Iocoro.FdRegistry
import Iocoro.FdResource
import Iocoro.TimerRegistry
import Iocoro.TransitionSystem

namespace Iocoro

/-! ## `operation_awaiter` -/

namespace OperationAwaiter

inductive Place where
  | fd (fd : Nat) (kind : FdEventKind)
  | timer (index : Nat)
deriving DecidableEq, Repr

/-- `event_handle`; it is valid when its token is. -/
structure Handle where
  place : Place
  token : Nat
deriving DecidableEq, Repr

/-- What `register_op` registers: a direction of the socket, or the timer. -/
inductive Factory where
  | fd (kind : FdEventKind)
  | timer (expiry : Int)
deriving DecidableEq, Repr

/-- Where `await_suspend` stands, with the local `handle`.  `publish` is
`set_*_handle`, `cancelOld` the end of `register_timer`, and `token` the reading
of the stop token from the promise. -/
inductive Pc where
  | idle
  | enter (factory : Factory)
  | register (factory : Factory)
  | publish (kind : FdEventKind) (token : Nat)
  | cancelOld (old : Option Handle) (handle : Handle)
  | token (handle : Option Handle)
  | test (handle : Option Handle)
  | install (handle : Option Handle)
  | returned
deriving DecidableEq, Repr

/-- The next step uses the promise or the awaiter: `register_op` and what it
captured, `st`, or `h.promise()`. -/
def Pc.accesses : Pc → Bool
  | .enter _ | .register _ | .publish _ _ | .token _ | .install _ => true
  | .idle | .cancelOld _ _ | .test _ | .returned => false

/-- `await_suspend` is running, on the reactor thread. -/
def Pc.busy : Pc → Bool
  | .idle | .returned => false
  | _ => true

/-- Operations are numbered in the order they are made; `current` is that of
this coroutine.  `resource` and `timerHandle`, `closed` belong to the socket and
to the timer it waits for, `expected` is the captured cancel epoch. -/
structure State where
  pc : Pc := .idle
  fds : FdRegistry Nat := {}
  timers : TimerRegistry Nat := {}
  resource : FdResource
  expected : Nat := 0
  timerHandle : Option Handle := none
  closed : Bool := false
  stopRequested : Bool := false
  current : Nat := 0
  next : Nat := 1
  done : Bool := false
  posted : Bool := false

/-- What the reactor does between two tasks. -/
inductive Request where
  | registerFd (fd : Int) (kind : FdEventKind)
  | addTimer (expiry : Int)
  | cancel (handle : Handle)
  | event (event : BackendEvent)
  | expire (clock : Nat → Int)
  | addFd (fd : Int)
  | removeFd (fd : Int)
  | drain

inductive Action where
  | await (factory : Factory)
  | proceed
  | resume
  | requestStop
  | bumpCancelEpoch (kind : FdEventKind)
  | takeHandle (kind : FdEventKind)
  | markClosing
  | releaseFd
  | closeTimer
  | takeTimerHandle
  | reactor (request : Request)

/-- `reactor_wait_op_state::complete`, where the operation is among those whose
callback is called. -/
def State.finish (s : State) (called : List Nat) : State :=
  if s.current ∈ called ∧ s.done = false then
    { s with done := true, posted := true }
  else s

/-- The task of `cancel_fd_event` or `cancel_timer`. -/
def State.runCancel (s : State) (handle : Handle) : State :=
  match handle.place with
  | .fd fd kind =>
      let result := s.fds.cancel fd kind handle.token
      { s with fds := result.1 }.finish result.2.removed.toList
  | .timer index =>
      let result := s.timers.cancel index handle.token
      { s with timers := result.1 }.finish result.2.op.toList

/-- `event_handle::cancel` on the reactor thread. -/
def State.cancelHandle (s : State) : Option Handle → State
  | none => s
  | some handle =>
      if handle.token = invalidToken then s else s.runCancel handle

/-- The handle that `register_fd_impl` makes. -/
def fdHandle (fd : Int) (kind : FdEventKind) (token : Nat) : Option Handle :=
  if token = invalidToken then none else some ⟨.fd fd.toNat kind, token⟩

section

variable (algorithms : BinaryHeap.Algorithms Nat)

/-- `register_op` up to `set_*_handle` or to `old.cancel()`. -/
def State.register (s : State) : Factory → State
  | .fd kind =>
      let result := s.fds.registerImpl s.resource.fd (some s.current) kind
      { s with fds := result.1, pc := .publish kind result.2.token }.finish
        (result.2.replaced.toList ++ result.2.readyNow.toList)
  | .timer expiry =>
      if s.closed then { s with pc := .token none }.finish [s.current]
      else
        let result := s.timers.addTimer algorithms expiry (some s.current)
        let handle := ⟨.timer result.2.index, result.2.token⟩
        { s with
          timers := result.1
          timerHandle := some handle
          pc := .cancelOld s.timerHandle handle }

/-- `set_read_handle` and `set_write_handle`. -/
def State.publish (s : State) (kind : FdEventKind) (token : Nat) : State :=
  let handle := fdHandle s.resource.fd kind token
  let published := s.resource.setHandle kind token s.expected
  let next := { s with resource := published.1, pc := .token handle }
  if published.2 then next else next.cancelHandle handle

/-- The next step of `await_suspend`.  A stop requested before the callback is
installed runs it at once. -/
def proceed (s : State) : Option State :=
  match s.pc with
  | .enter factory => some { s with pc := .register factory }
  | .register factory => some (s.register algorithms factory)
  | .publish kind token => some (s.publish kind token)
  | .cancelOld old handle =>
      some { s.cancelHandle old with pc := .token (some handle) }
  | .token handle => some { s with pc := .test handle }
  | .test handle =>
      if s.stopRequested then some { s.cancelHandle handle with pc := .returned }
      else some { s with pc := .install handle }
  | .install handle =>
      if s.stopRequested then some { s.cancelHandle handle with pc := .returned }
      else some { s with pc := .returned }
  | .idle | .returned => none

def State.perform (s : State) : Request → State
  | .registerFd fd kind =>
      let result := s.fds.registerImpl fd (some s.next) kind
      { s with fds := result.1, next := s.next + 1 }.finish
        result.2.replaced.toList
  | .addTimer expiry =>
      { s with
        timers := (s.timers.addTimer algorithms expiry (some s.next)).1
        next := s.next + 1 }
  | .cancel handle => s.runCancel handle
  | .event event =>
      let result := s.fds.takeReady event.fd event.canRead event.canWrite
      { s with fds := result.1 }.finish
        (result.2.read.toList ++ result.2.write.toList)
  | .expire clock =>
      let result := s.timers.processExpired algorithms clock
      { s with timers := result.1 }.finish (result.2.map Prod.fst)
  | .addFd fd => { s with fds := s.fds.track fd }
  | .removeFd fd =>
      let result := s.fds.deregister fd
      { s with fds := result.1 }.finish
        (result.2.read.toList ++ result.2.write.toList)
  | .drain =>
      { s with fds := s.fds.drainAll.1, timers := s.timers.drainAll.1 }.finish
        (s.fds.drainAll.2.ops ++ s.timers.drainAll.2)

def step (s : State) : Action → Option State
  | .await factory =>
      if s.pc = .idle then
        some { s with
          pc := .enter factory
          expected := match factory with
            | .fd kind => s.resource.cancelEpoch kind
            | .timer _ => s.expected
          current := s.next
          next := s.next + 1
          done := false
          posted := false }
      else none
  | .proceed => proceed algorithms s
  | .resume =>
      if s.pc = .returned ∧ s.posted = true then some { s with pc := .idle }
      else none
  | .requestStop => some { s with stopRequested := true }
  | .bumpCancelEpoch kind =>
      some { s with resource := s.resource.bumpCancelEpoch kind }
  | .takeHandle kind =>
      some { s with resource := (s.resource.takeHandle kind).1 }
  | .markClosing => some { s with resource := s.resource.markClosing }
  | .releaseFd => some { s with resource := { s.resource with fd := -1 } }
  | .closeTimer => some { s with closed := true, timerHandle := none }
  | .takeTimerHandle => some { s with timerHandle := none }
  | .reactor request =>
      if s.pc.busy then none else some (s.perform algorithms request)

def system (fd : Int) : TransitionSystem State Action where
  start := { resource := { fd } }
  step := step algorithms

end

/-- `register_op` does not complete the operation: no readiness is latched for
it, the resource accepts its handle, the timer is not closed, and the handle
that the timer had before is not the one it gets. -/
def outlivesRegistration (s : State) : Action → Bool
  | .proceed =>
      match s.pc with
      | .register (.fd kind) =>
          s.resource.fd < 0 ||
            !(s.fds.slotAt s.resource.fd.toNat kind).ready
      | .register (.timer _) => !s.closed
      | .publish kind token =>
          token == invalidToken ||
            (s.resource.setHandle kind token s.expected).2
      | .cancelOld old handle => old != some handle
      | _ => true
  | _ => true

/-! ### Invariant -/

/-- Every stored operation was made before, and by its number. -/
structure Fresh (s : State) : Prop where
  nodes : s.timers.NodesOk
  fds : ∀ i kind op, (s.fds.slotAt i kind).op = some op → op < s.next
  timers : ∀ i op, (s.timers.node i).op = some op → op < s.next
  current : s.current < s.next

/-- The operation of this coroutine is not stored in `fd_registry`. -/
def State.notInFds (s : State) : Prop :=
  ∀ i kind, (s.fds.slotAt i kind).op ≠ some s.current

structure Inv (s : State) : Prop extends Fresh s where
  quiet : s.pc.busy = true → s.posted = false
  early : ∀ factory, s.pc = .enter factory ∨ s.pc = .register factory →
    s.notInFds ∧ ∀ i, (s.timers.node i).op ≠ some s.current
  cancelOld : ∀ old handle, s.pc = .cancelOld old handle →
    s.notInFds ∧ ∃ index, handle.place = .timer index ∧
      (s.timers.node index).token = handle.token ∧
      ∀ i, (s.timers.node i).op = some s.current → i = index

theorem start_inv (algorithms : BinaryHeap.Algorithms Nat) (fd : Int) :
    Inv (system algorithms fd).start := by
  refine {
    nodes := TimerRegistry.nodesOk_empty
    fds := ?_
    timers := ?_
    current := Nat.zero_lt_one
    quiet := fun _ => rfl
    early := ?_
    cancelOld := ?_ }
  · intro i kind op hop
    cases kind <;> simp [system, FdRegistry.slotAt, FdRegistry.entry,
      FdRegistry.FdOps.slotFor] at hop
  · intro i op hop
    simp [system, TimerRegistry.node] at hop
  · simp [system]
  · simp [system]

theorem Pc.busy_of_accesses {pc : Pc} (h : pc.accesses = true) :
    pc.busy = true := by
  cases pc <;> simp_all [Pc.accesses, Pc.busy]

section Finish

variable (s : State) (called : List Nat)

@[simp] theorem finish_pc : (s.finish called).pc = s.pc := by
  unfold State.finish
  split <;> rfl

theorem finish_of_not_mem (h : s.current ∉ called) : s.finish called = s := by
  unfold State.finish
  rw [if_neg fun hboth => h hboth.1]

variable {s} in
theorem Fresh.finish (hs : Fresh s) : Fresh (s.finish called) := by
  unfold State.finish
  split
  · exact { hs with }
  · exact hs

end Finish

theorem Fresh.setFds {s : State} (hs : Fresh s) {fds : FdRegistry Nat}
    (hfds : FdRegistry.OnlyRemoves s.fds fds) : Fresh { s with fds } :=
  { hs with fds := fun i kind op hop => hs.fds i kind op (hfds i kind op hop).1 }

theorem Fresh.setTimers {s : State} (hs : Fresh s) {timers : TimerRegistry Nat}
    (htimers : TimerRegistry.OnlyRemoves s.timers timers ∧ timers.NodesOk) :
    Fresh { s with timers } :=
  { hs with
    nodes := htimers.2
    timers := fun i op hop => hs.timers i op (htimers.1 i op hop).1 }

theorem Fresh.runCancel {s : State} (hs : Fresh s) (handle : Handle) :
    Fresh (s.runCancel handle) := by
  unfold State.runCancel
  split
  · exact (hs.setFds (s.fds.cancel_onlyRemoves _ _ _).1).finish _
  · exact (hs.setTimers (TimerRegistry.cancel_onlyRemoves hs.nodes _ _)).finish _

theorem Fresh.cancelHandle {s : State} (hs : Fresh s) (handle : Option Handle) :
    Fresh (s.cancelHandle handle) := by
  unfold State.cancelHandle
  split
  · exact hs
  · split
    · exact hs
    · exact hs.runCancel _

/-- A registration stores at most its own operation anew. -/
theorem mem_registerImpl {fds : FdRegistry Nat} {fd : Int} {op me i : Nat}
    {kind other : FdEventKind}
    (hstored : ((fds.registerImpl fd (some op) kind).1.slotAt i other).op =
      some me) :
    me = op ∨ (fds.slotAt i other).op = some me := by
  by_cases hfd : 0 ≤ fd
  · by_cases hme : me = op
    · exact .inl hme
    · exact .inr (fds.registerImpl_removes hfd hme kind hstored).1
  · right
    rwa [FdRegistry.registerImpl, if_pos (not_le.mp hfd)] at hstored

theorem mem_addTimer (algorithms : BinaryHeap.Algorithms Nat)
    {timers : TimerRegistry Nat} {expiry : Int} {op me i : Nat}
    (hstored : ((timers.addTimer algorithms expiry (some op)).1.node i).op =
      some me) :
    (me = op ∧ i = (timers.addTimer algorithms expiry (some op)).2.index) ∨
      (timers.node i).op = some me := by
  rcases (TimerRegistry.addTimer_node algorithms timers expiry (some op) i).2
    with hsame | ⟨hindex, hnew⟩
  · rw [hsame] at hstored
    exact .inr hstored
  · rw [hnew] at hstored
    exact .inl ⟨(Option.some.inj hstored).symm, hindex⟩

/-- The callbacks that `old.cancel()` calls are not that of the operation just
registered, unless the handles are the same. -/
theorem cancelHandle_of_ne {s : State} {old : Option Handle} {handle : Handle}
    {index : Nat} (hfds : s.notInFds) (hplace : handle.place = .timer index)
    (htoken : (s.timers.node index).token = handle.token)
    (honly : ∀ i, (s.timers.node i).op = some s.current → i = index)
    (hne : old ≠ some handle) :
    (s.cancelHandle old).posted = s.posted := by
  unfold State.cancelHandle
  split
  · rfl
  · next found =>
      split
      · rfl
      · unfold State.runCancel
        split
        · next fd kind _ =>
            rw [finish_of_not_mem]
            change s.current ∉
              (s.fds.cancel fd kind found.token).2.removed.toList
            rw [FdRegistry.cancel_eq]
            split
            · simpa using hfds _ kind
            · simp
        · next i hfound =>
            rw [finish_of_not_mem]
            change s.current ∉ (s.timers.cancel i found.token).2.op.toList
            rw [TimerRegistry.cancel_eq]
            split
            · next hmatch =>
                intro hmem
                have hi := honly i (by simpa using hmem)
                apply hne
                obtain ⟨place, token⟩ := found
                obtain ⟨place', token'⟩ := handle
                simp only at hfound hplace htoken hmatch
                rw [hfound, hplace, hi, ← htoken, ← hmatch.2.2.1, hi]
            · simp

section

variable (algorithms : BinaryHeap.Algorithms Nat)

theorem Fresh.register {s : State} (hs : Fresh s) (factory : Factory) :
    Fresh (s.register algorithms factory) := by
  unfold State.register
  split
  · next kind =>
      refine Fresh.finish _ ?_
      refine { hs with fds := fun i other op hop => ?_ }
      rcases mem_registerImpl hop with rfl | hold
      · exact hs.current
      · exact hs.fds i other op hold
  · next expiry =>
      split
      · exact Fresh.finish _ { hs with }
      · refine { hs with
          nodes := TimerRegistry.addTimer_nodesOk algorithms hs.nodes _ _
          timers := fun i op hop => ?_ }
        rcases mem_addTimer algorithms hop with ⟨rfl, -⟩ | hold
        · exact hs.current
        · exact hs.timers i op hold

theorem Fresh.perform {s : State} (hs : Fresh s) (request : Request) :
    Fresh (s.perform algorithms request) := by
  have hnext : ∀ {op : Nat}, op < s.next → op < s.next + 1 := fun h =>
    Nat.lt_succ_of_lt h
  cases request with
  | registerFd fd kind =>
      refine Fresh.finish _ ?_
      refine { hs with
        fds := fun i other op hop => ?_
        timers := fun i op hop => hnext (hs.timers i op hop)
        current := hnext hs.current }
      rcases mem_registerImpl hop with rfl | hold
      · exact Nat.lt_succ_self _
      · exact hnext (hs.fds i other op hold)
  | addTimer expiry =>
      refine { hs with
        nodes := TimerRegistry.addTimer_nodesOk algorithms hs.nodes _ _
        fds := fun i other op hop => hnext (hs.fds i other op hop)
        timers := fun i op hop => ?_
        current := hnext hs.current }
      rcases mem_addTimer algorithms hop with ⟨rfl, -⟩ | hold
      · exact Nat.lt_succ_self _
      · exact hnext (hs.timers i op hold)
  | cancel handle => exact hs.runCancel handle
  | event event =>
      exact (hs.setFds (s.fds.takeReady_onlyRemoves _ _ _).1).finish _
  | expire clock =>
      exact (hs.setTimers
        (TimerRegistry.processExpired_onlyRemoves algorithms hs.nodes clock)
        ).finish _
  | addFd fd => exact hs.setFds (s.fds.track_onlyRemoves fd).1
  | removeFd fd => exact (hs.setFds (s.fds.deregister_onlyRemoves fd).1).finish _
  | drain =>
      have hfds := hs.setFds s.fds.drainAll_onlyRemoves.1
      exact (hfds.setTimers (TimerRegistry.drainAll_onlyRemoves hs.nodes)).finish _

/-- Between two calls of `await_suspend` only the numbering matters. -/
theorem Fresh.inv_of_idle {s : State} (hs : Fresh s) (hpc : s.pc.busy = false) :
    Inv s := by
  refine { hs with
    quiet := fun hbusy => ?_
    early := fun factory hearly => ?_
    cancelOld := fun old handle hold => ?_ }
  · rw [hpc] at hbusy
    simp at hbusy
  · rcases hearly with hearly | hearly <;> simp [hearly, Pc.busy] at hpc
  · simp [hold, Pc.busy] at hpc

/-- Past the registration nothing is asked of the stored operations. -/
theorem Fresh.inv_of_registered {s : State} (hs : Fresh s)
    (hposted : s.posted = false)
    (hpc : (∃ kind token, s.pc = .publish kind token) ∨
      (∃ handle, s.pc = .token handle) ∨ (∃ handle, s.pc = .test handle) ∨
      ∃ handle, s.pc = .install handle) : Inv s := by
  refine { hs with
    quiet := fun _ => hposted
    early := fun factory hearly => ?_
    cancelOld := fun old handle hold => ?_ }
  · rcases hearly with hearly | hearly <;> simp [hearly] at hpc
  · simp [hold] at hpc

theorem perform_pc (s : State) (request : Request) :
    (s.perform algorithms request).pc = s.pc := by
  cases request with
  | cancel handle =>
      simp only [State.perform, State.runCancel]
      split <;> exact finish_pc _ _
  | addTimer expiry | addFd fd => rfl
  | registerFd fd kind | event event | expire clock | removeFd fd | drain =>
      exact finish_pc _ _

/-- `register_fd_impl` calls back neither the new operation, no readiness being
latched, nor any that it replaces under the same number. -/
theorem registerFd_calls {s : State} (hs : Inv s) {kind : FdEventKind}
    (hpc : s.pc = .register (.fd kind))
    (hallowed : outlivesRegistration s .proceed = true) :
    s.current ∉
      (s.fds.registerImpl s.resource.fd (some s.current) kind).2.replaced.toList ++
      (s.fds.registerImpl s.resource.fd (some s.current) kind).2.readyNow.toList := by
  by_cases hfd : 0 ≤ s.resource.fd
  · have hready : (s.fds.slotAt s.resource.fd.toNat kind).ready = false := by
      simp only [outlivesRegistration, hpc, Bool.or_eq_true, decide_eq_true_eq,
        Bool.not_eq_true'] at hallowed
      exact hallowed.resolve_left (not_lt.mpr hfd)
    rw [FdRegistry.registerImpl_result s.fds hfd, hready]
    simpa using (hs.early _ (.inr hpc)).1 _ kind
  · rw [FdRegistry.registerImpl, if_pos (not_le.mp hfd)]
    simp

theorem register_inv {s : State} (hs : Inv s) {factory : Factory}
    (hpc : s.pc = .register factory)
    (hallowed : outlivesRegistration s .proceed = true) :
    Inv (s.register algorithms factory) := by
  have hfresh := hs.toFresh.register algorithms factory
  have hposted := hs.quiet (by simp [hpc, Pc.busy])
  cases factory with
  | fd kind =>
      have hsame : s.register algorithms (.fd kind) = { s with
          fds := (s.fds.registerImpl s.resource.fd (some s.current) kind).1
          pc := .publish kind
            (s.fds.registerImpl s.resource.fd (some s.current) kind).2.token } :=
        finish_of_not_mem _ _ (registerFd_calls hs hpc hallowed)
      rw [hsame] at hfresh ⊢
      exact hfresh.inv_of_registered hposted (.inl ⟨kind, _, rfl⟩)
  | timer expiry =>
      have hopen : s.closed = false := by
        simpa [outlivesRegistration, hpc] using hallowed
      obtain ⟨hfds, htimers⟩ := hs.early _ (.inr hpc)
      have hnode := TimerRegistry.addTimer_node algorithms s.timers expiry
        (some s.current)
      simp only [State.register, hopen, Bool.false_eq_true, if_false]
        at hfresh ⊢
      refine { hfresh with
        quiet := fun _ => hposted
        early := fun factory hearly => by simp at hearly
        cancelOld := fun old handle hold => ?_ }
      simp only [Pc.cancelOld.injEq] at hold
      obtain ⟨-, rfl⟩ := hold
      refine ⟨hfds, _, rfl, ?_, fun i hstored => ?_⟩
      · rcases (hnode (s.timers.addTimer algorithms expiry
          (some s.current)).2.index).2 with hsame | ⟨-, hnew⟩
        · rw [hsame]
          exact (hnode 0).1.symm
        · rw [hnew]
          exact (hnode 0).1.symm
      · rcases mem_addTimer algorithms hstored with ⟨-, hindex⟩ | hold
        · exact hindex
        · exact absurd hold (htimers i)

theorem publish_inv {s : State} (hs : Inv s) {kind : FdEventKind} {token : Nat}
    (hpc : s.pc = .publish kind token)
    (hallowed : outlivesRegistration s .proceed = true) :
    Inv (s.publish kind token) := by
  have hposted := hs.quiet (by simp [hpc, Pc.busy])
  have hfresh : ∀ resource pc, Fresh { s with resource, pc } := fun _ _ =>
    { hs.toFresh with }
  simp only [outlivesRegistration, hpc, Bool.or_eq_true, beq_iff_eq] at hallowed
  unfold State.publish
  simp only
  split
  · exact (hfresh _ _).inv_of_registered hposted (.inr (.inl ⟨_, rfl⟩))
  · next hrejected =>
      have hinvalid := hallowed.resolve_right hrejected
      rw [fdHandle, if_pos hinvalid]
      exact (hfresh _ _).inv_of_registered hposted (.inr (.inl ⟨_, rfl⟩))

theorem proceed_inv {s t : State} (hs : Inv s)
    (hallowed : outlivesRegistration s .proceed = true)
    (hstep : proceed algorithms s = some t) : Inv t := by
  unfold proceed at hstep
  split at hstep
  · next factory hpc =>
      obtain rfl := Option.some.inj hstep
      have hearly := hs.early factory (.inl hpc)
      exact { hs.toFresh with
        quiet := fun _ => hs.quiet (by simp [hpc, Pc.busy])
        early := fun _ _ => hearly
        cancelOld := fun old handle hold => by simp at hold }
  · next factory hpc =>
      obtain rfl := Option.some.inj hstep
      exact register_inv algorithms hs hpc hallowed
  · next kind token hpc =>
      obtain rfl := Option.some.inj hstep
      exact publish_inv hs hpc hallowed
  · next old handle hpc =>
      obtain rfl := Option.some.inj hstep
      obtain ⟨hfds, index, hplace, htoken, honly⟩ := hs.cancelOld old handle hpc
      have hne : old ≠ some handle := by
        simpa [outlivesRegistration, hpc] using hallowed
      have hposted := cancelHandle_of_ne hfds hplace htoken honly hne
      rw [hs.quiet (by simp [hpc, Pc.busy])] at hposted
      exact Fresh.inv_of_registered { hs.toFresh.cancelHandle old with } hposted
        (.inr (.inl ⟨_, rfl⟩))
  · next handle hpc =>
      obtain rfl := Option.some.inj hstep
      exact Fresh.inv_of_registered { hs.toFresh with }
        (hs.quiet (by simp [hpc, Pc.busy])) (.inr (.inr (.inl ⟨_, rfl⟩)))
  · next handle hpc =>
      split at hstep
      · obtain rfl := Option.some.inj hstep
        exact Fresh.inv_of_idle { hs.toFresh.cancelHandle handle with } rfl
      · obtain rfl := Option.some.inj hstep
        exact Fresh.inv_of_registered { hs.toFresh with }
          (hs.quiet (by simp [hpc, Pc.busy])) (.inr (.inr (.inr ⟨_, rfl⟩)))
  · next handle hpc =>
      split at hstep
      · obtain rfl := Option.some.inj hstep
        exact Fresh.inv_of_idle { hs.toFresh.cancelHandle handle with } rfl
      · obtain rfl := Option.some.inj hstep
        exact Fresh.inv_of_idle { hs.toFresh with } rfl
  · simp at hstep
  · simp at hstep

theorem await_inv {s : State} (hs : Inv s) (factory : Factory) (expected : Nat) :
    Inv { s with
      pc := .enter factory
      expected
      current := s.next
      next := s.next + 1
      done := false
      posted := false } :=
  { nodes := hs.nodes
    fds := fun i kind op hop => Nat.lt_succ_of_lt (hs.fds i kind op hop)
    timers := fun i op hop => Nat.lt_succ_of_lt (hs.timers i op hop)
    current := Nat.lt_succ_self _
    quiet := fun _ => rfl
    early := fun _ _ =>
      ⟨fun i kind hop => Nat.lt_irrefl _ (hs.fds i kind _ hop),
        fun i hop => Nat.lt_irrefl _ (hs.timers i _ hop)⟩
    cancelOld := fun old handle hold => by simp at hold }

theorem step_inv {s t : State} {a : Action} (hs : Inv s)
    (hallowed : outlivesRegistration s a = true)
    (hstep : step algorithms s a = some t) : Inv t := by
  cases a with
  | await factory =>
      simp only [step, Option.ite_none_right_eq_some,
        Option.some.injEq] at hstep
      obtain ⟨-, rfl⟩ := hstep
      exact await_inv hs factory _
  | proceed => exact proceed_inv algorithms hs hallowed hstep
  | resume =>
      simp only [step, Option.ite_none_right_eq_some,
        Option.some.injEq] at hstep
      obtain ⟨-, rfl⟩ := hstep
      exact Fresh.inv_of_idle { hs.toFresh with } rfl
  | requestStop | bumpCancelEpoch kind | takeHandle kind | markClosing
  | releaseFd | closeTimer | takeTimerHandle =>
      obtain rfl := Option.some.inj hstep
      exact { hs with }
  | reactor request =>
      simp only [step, Option.ite_none_left_eq_some, Bool.not_eq_true,
        Option.some.injEq] at hstep
      obtain ⟨hidle, rfl⟩ := hstep
      refine (hs.toFresh.perform algorithms request).inv_of_idle ?_
      rw [perform_pc]
      exact hidle

theorem Inv.noLateAccess {s : State} (hs : Inv s) (hposted : s.posted = true) :
    s.pc.accesses = false := by
  by_contra haccess
  rw [Bool.not_eq_false] at haccess
  rw [hs.quiet (Pc.busy_of_accesses haccess)] at hposted
  simp at hposted

end

end OperationAwaiter

/-! ## `resolve_awaiter` -/

namespace ResolveAwaiter

/-- Where `await_suspend` stands; `poolPost` is the call of `pool_ex.post`. -/
inductive Pc where
  | enter
  | token
  | test
  | abort
  | abortPost
  | install
  | poolPost
  | returned
deriving DecidableEq, Repr

/-- The next step uses the promise or the awaiter, not only its copies. -/
def Pc.accesses : Pc → Bool
  | .enter | .token | .poolPost => true
  | .test | .abort | .abortPost | .install | .returned => false

/-- Where the stop callback stands. -/
inductive StopPc where
  | idle
  | dispatch
  | exchange
  | post
  | over
deriving DecidableEq, Repr

/-- Where the pool's task stands; `resolve` is the call of `getaddrinfo`. -/
inductive WorkerPc where
  | absent
  | resolve
  | exchange
  | reset
  | post
  | over
deriving DecidableEq, Repr

structure State where
  pc : Pc := .enter
  stopPc : StopPc := .idle
  worker : WorkerPc := .absent
  stopRequested : Bool := false
  callback : Bool := false
  done : Bool := false
  posted : Nat := 0
deriving DecidableEq, Repr

inductive Action where
  | proceed
  | requestStop
  | callback
  | work
deriving DecidableEq, Repr

/-- The next step of `await_suspend`.  A stop requested before the callback is
installed runs it at once. -/
def proceed (s : State) : Option State :=
  match s.pc with
  | .enter => some { s with pc := .token }
  | .token => some { s with pc := .test }
  | .test => some { s with pc := if s.stopRequested then .abort else .install }
  | .abort =>
      if s.done then some { s with pc := .returned }
      else some { s with pc := .abortPost, done := true }
  | .abortPost => some { s with pc := .returned, posted := s.posted + 1 }
  | .install =>
      if s.stopRequested then
        if s.done then some { s with pc := .poolPost }
        else some { s with
          pc := .poolPost, done := true, posted := s.posted + 1 }
      else some { s with pc := .poolPost, callback := true }
  | .poolPost => some { s with pc := .returned, worker := .resolve }
  | .returned => none

/-- The next step of the stop request. -/
def callback (s : State) : Option State :=
  match s.stopPc with
  | .dispatch => some { s with
      stopPc := if s.callback then .exchange else .over, callback := false }
  | .exchange =>
      if s.done then some { s with stopPc := .over }
      else some { s with stopPc := .post, done := true }
  | .post => some { s with stopPc := .over, posted := s.posted + 1 }
  | .idle | .over => none

/-- The next step of the pool's task; `stop_cb.reset()` waits for a callback
that is running. -/
def work (s : State) : Option State :=
  match s.worker with
  | .resolve => some { s with worker := .exchange }
  | .exchange =>
      if s.done then some { s with worker := .over }
      else some { s with worker := .reset, done := true }
  | .reset =>
      if s.stopPc = .exchange ∨ s.stopPc = .post then none
      else some { s with worker := .post, callback := false }
  | .post => some { s with worker := .over, posted := s.posted + 1 }
  | .absent | .over => none

def step (s : State) : Action → Option State
  | .proceed => proceed s
  | .requestStop =>
      if s.stopRequested then none
      else some { s with
        stopRequested := true
        stopPc := if s.callback then .dispatch else .over }
  | .callback => callback s
  | .work => work s

def system : TransitionSystem State Action where
  start := {}
  step := step

/-- The stop callback does not complete the wait before `pool_ex.post` is
called, neither from its own constructor nor from another thread. -/
def outlivesPoolPost (s : State) : Action → Bool
  | .proceed => s.pc != .install || s.done || !s.stopRequested
  | .callback => s.stopPc != .exchange || s.done || s.pc != .poolPost
  | _ => true

/-- Who has set `done`: under the condition it is set in `await_suspend` only on
the way out, and elsewhere only after its last access. -/
structure Inv (s : State) : Prop where
  done : s.done = true → s.pc = .abortPost ∨ s.pc = .returned
  posted : 0 < s.posted → s.done = true
  aborting : s.pc = .abortPost → s.done = true
  stopping : s.stopPc = .post → s.done = true
  worker : s.worker ≠ .absent → s.pc = .returned
  working : s.worker = .reset ∨ s.worker = .post → s.done = true
  callback : s.callback = true ∨ s.stopPc = .dispatch ∨ s.stopPc = .exchange →
    s.pc = .poolPost ∨ s.pc = .returned

theorem start_inv : Inv system.start := by
  constructor <;> simp [system]

/-- Before its last steps `await_suspend` has not completed the wait, and there is no
task of the pool. -/
theorem Inv.unfinished {s : State} (hs : Inv s) (habort : s.pc ≠ .abortPost)
    (hreturn : s.pc ≠ .returned) : s.done = false ∧ s.worker = .absent := by
  constructor
  · by_contra hdone
    rcases hs.done (by simpa using hdone) with hpc | hpc
    · exact habort hpc
    · exact hreturn hpc
  · by_contra hworker
    exact hreturn (hs.worker hworker)

/-- Before the callback is installed nothing runs it. -/
theorem Inv.uncalled {s : State} (hs : Inv s) (hpool : s.pc ≠ .poolPost)
    (hreturn : s.pc ≠ .returned) :
    ¬ (s.callback = true ∨ s.stopPc = .dispatch ∨ s.stopPc = .exchange) := by
  intro hcase
  rcases hs.callback hcase with hpc | hpc
  · exact hpool hpc
  · exact hreturn hpc

theorem Inv.goto {s : State} (hs : Inv s) {pc : Pc} {callback : Bool}
    (habort : s.pc ≠ .abortPost) (hreturn : s.pc ≠ .returned)
    (hnew : pc ≠ .abortPost)
    (hcallback : callback = true ∨ s.stopPc = .dispatch ∨ s.stopPc = .exchange →
      pc = .poolPost ∨ pc = .returned) : Inv { s with pc, callback } := by
  obtain ⟨hdone, hworker⟩ := hs.unfinished habort hreturn
  exact {
    done := fun h => Bool.noConfusion (hdone.symm.trans h)
    posted := hs.posted
    aborting := fun h => absurd h hnew
    stopping := hs.stopping
    worker := fun h => absurd hworker h
    working := hs.working
    callback := hcallback }

theorem proceed_inv {s t : State} (hs : Inv s)
    (hallowed : outlivesPoolPost s .proceed = true)
    (hstep : proceed s = some t) : Inv t := by
  unfold proceed at hstep
  split at hstep
  · next hpc =>
      obtain rfl := Option.some.inj hstep
      have hnone := hs.uncalled (by simp [hpc]) (by simp [hpc])
      exact hs.goto (by simp [hpc]) (by simp [hpc]) (by simp) fun h => absurd h hnone
  · next hpc =>
      obtain rfl := Option.some.inj hstep
      have hnone := hs.uncalled (by simp [hpc]) (by simp [hpc])
      exact hs.goto (by simp [hpc]) (by simp [hpc]) (by simp) fun h => absurd h hnone
  · next hpc =>
      obtain rfl := Option.some.inj hstep
      have hnone := hs.uncalled (by simp [hpc]) (by simp [hpc])
      refine hs.goto (by simp [hpc]) (by simp [hpc]) ?_ fun h => absurd h hnone
      split <;> simp
  · next hpc =>
      obtain ⟨hdone, hworker⟩ := hs.unfinished (by simp [hpc]) (by simp [hpc])
      have hnone := hs.uncalled (by simp [hpc]) (by simp [hpc])
      rw [hdone] at hstep
      obtain rfl := Option.some.inj hstep
      exact {
        done := fun _ => .inl rfl
        posted := fun _ => rfl
        aborting := fun _ => rfl
        stopping := fun _ => rfl
        worker := fun h => absurd hworker h
        working := fun _ => rfl
        callback := fun h => absurd h hnone }
  · next hpc =>
      obtain rfl := Option.some.inj hstep
      exact {
        done := fun _ => .inr rfl
        posted := fun _ => hs.aborting hpc
        aborting := nofun
        stopping := hs.stopping
        worker := fun _ => rfl
        working := hs.working
        callback := fun _ => .inr rfl }
  · next hpc =>
      obtain ⟨hdone, -⟩ := hs.unfinished (by simp [hpc]) (by simp [hpc])
      have hstop : s.stopRequested = false := by
        simpa [outlivesPoolPost, hpc, hdone] using hallowed
      rw [if_neg (by simp [hstop])] at hstep
      obtain rfl := Option.some.inj hstep
      exact hs.goto (by simp [hpc]) (by simp [hpc]) (by simp) fun _ => .inl rfl
  · next hpc =>
      obtain rfl := Option.some.inj hstep
      exact {
        done := fun _ => .inr rfl
        posted := hs.posted
        aborting := nofun
        stopping := hs.stopping
        worker := fun _ => rfl
        working := by simp
        callback := fun _ => .inr rfl }
  · simp at hstep

theorem callback_inv {s t : State} (hs : Inv s)
    (hallowed : outlivesPoolPost s .callback = true)
    (hstep : callback s = some t) : Inv t := by
  unfold callback at hstep
  split at hstep
  · next hpc =>
      obtain rfl := Option.some.inj hstep
      exact { hs with
        stopping := by
          dsimp only
          split <;> simp
        callback := fun _ => hs.callback (.inr (.inl hpc)) }
  · next hpc =>
      have hplace := hs.callback (.inr (.inr hpc))
      split at hstep
      · obtain rfl := Option.some.inj hstep
        exact { hs with
          stopping := nofun
          callback := fun _ => hplace }
      · next hdone =>
          obtain rfl := Option.some.inj hstep
          have hpool : s.pc ≠ .poolPost := by
            simpa [outlivesPoolPost, hpc, hdone] using hallowed
          have hreturn := hplace.resolve_left hpool
          exact {
            done := fun _ => .inr hreturn
            posted := fun _ => rfl
            aborting := fun _ => rfl
            stopping := fun _ => rfl
            worker := hs.worker
            working := fun _ => rfl
            callback := fun _ => hplace }
  · next hpc =>
      obtain rfl := Option.some.inj hstep
      exact { hs with
        posted := fun _ => hs.stopping hpc
        stopping := nofun
        callback := fun h => hs.callback (.inl (by simpa using h)) }
  · simp at hstep
  · simp at hstep

theorem work_inv {s t : State} (hs : Inv s) (hstep : work s = some t) :
    Inv t := by
  unfold work at hstep
  split at hstep
  · next hpc =>
      obtain rfl := Option.some.inj hstep
      exact { hs with
        worker := fun _ => hs.worker (by simp [hpc])
        working := by simp }
  · next hpc =>
      have hreturn := hs.worker (by simp [hpc])
      split at hstep
      · obtain rfl := Option.some.inj hstep
        exact { hs with
          worker := fun _ => hreturn
          working := by simp }
      · obtain rfl := Option.some.inj hstep
        exact { hs with
          done := fun _ => .inr hreturn
          posted := fun _ => rfl
          aborting := fun _ => rfl
          stopping := fun _ => rfl
          worker := fun _ => hreturn
          working := fun _ => rfl }
  · next hpc =>
      have hreturn := hs.worker (by simp [hpc])
      obtain ⟨-, hstep⟩ := Option.ite_none_left_eq_some.mp hstep
      obtain rfl := Option.some.inj hstep
      exact { hs with
        worker := fun _ => hreturn
        working := fun _ => hs.working (.inl hpc)
        callback := fun _ => .inr hreturn }
  · next hpc =>
      obtain rfl := Option.some.inj hstep
      exact { hs with
        posted := fun _ => hs.working (.inr hpc)
        worker := fun _ => hs.worker (by simp [hpc])
        working := by simp }
  · simp at hstep
  · simp at hstep

theorem step_inv {s t : State} {a : Action} (hs : Inv s)
    (hallowed : outlivesPoolPost s a = true) (hstep : step s a = some t) :
    Inv t := by
  cases a with
  | proceed => exact proceed_inv hs hallowed hstep
  | requestStop =>
      simp only [step, Option.ite_none_left_eq_some, Option.some.injEq] at hstep
      obtain ⟨-, rfl⟩ := hstep
      refine { hs with stopping := ?_, callback := ?_ }
      · simp only
        split <;> simp
      · intro hcase
        cases hcallback : s.callback with
        | true => exact hs.callback (.inl hcallback)
        | false => simp [hcallback] at hcase
  | callback => exact callback_inv hs hallowed hstep
  | work => exact work_inv hs hstep

theorem Inv.noLateAccess {s : State} (hs : Inv s) (hposted : 0 < s.posted) :
    s.pc.accesses = false := by
  rcases hs.done (hs.posted hposted) with hpc | hpc <;> rw [hpc] <;> rfl

end ResolveAwaiter

/-! ## `wait_awaiter` -/

namespace ConditionWaiter

/-- The next step of `await_suspend` uses the promise or the awaiter, with its
members `st`, `w`, `ready_res` and `did_suspend`; `complete` works on a copy of
`w` once it is called. -/
def WaitPc.accesses : WaitPc → Bool
  | .cancel .reset | .cancel .post | .over _ => false
  | _ => true

/-- A call of `complete` that stands at `stage` does not win the exchange of
`done` while `await_suspend` still uses the awaiter. -/
def Wait.outlives (w : Wait) (stage : Option Stage) : Bool :=
  stage != some .exchange || w.done || !w.pc.accesses

/-- No stop callback, `notify` or destruction completes a waiter before the last
step of its `await_suspend` that uses the awaiter. -/
def outlivesAwait (s : State) : Action → Bool
  | .callback id => (s.wait id).outlives (s.wait id).stopPc.stage
  | .complete id =>
      (s.wait id).outlives ((s.wait id).taker.bind Taker.stage)
  | .abort =>
      match s.aborting with
      | id :: _ => (s.wait id).outlives ((s.wait id).taker.bind Taker.stage)
      | [] => true
  | _ => true

/-- Completion comes after the last use of the awaiter. -/
def Wait.Late (w : Wait) : Prop := w.done = true → w.pc.accesses = false

/-- A completion that was allowed to win comes after the last use. -/
theorem Wait.Late.completed {destroyed : Bool} {w v : Wait} {stage : Stage}
    {next : Option Stage} (hw : w.Late)
    (hallowed : w.outlives (some stage) = true)
    (hok : WaitOk destroyed w)
    (hclaim : claim (some stage) ≤ claim w.pc.stage + claim w.stopPc.stage +
      claim (w.taker.bind Taker.stage))
    (hv : Completed destroyed w v stage next) : v.pc.accesses = false := by
  rw [hv.pc]
  simp only [Wait.outlives, Bool.or_eq_true, bne_iff_ne, Bool.not_eq_true']
    at hallowed
  rcases hallowed with (hstage | hdone) | hpc
  · refine hw (hok.of_claim (lt_of_lt_of_le ?_ hclaim)).1
    cases stage <;> simp_all
  · exact hw hdone
  · exact hpc

theorem Move.late {destroyed : Bool} {w v : Wait} {actor : Actor}
    (hmove : Move w actor v) (hok : WaitOk destroyed w) (hw : w.Late)
    (hcallback : actor = .callback → w.outlives w.stopPc.stage = true)
    (htaker : actor = .taker →
      w.outlives (w.taker.bind Taker.stage) = true) : v.Late := by
  have hearly : w.pc.accesses = true → v.done = w.done → v.Late := by
    intro haccess hsame hdone
    rw [hw (hsame ▸ hdone)] at haccess
    simp at haccess
  cases hmove with
  | refuse _ hpc | start hpc | arm hpc | decline _ hpc | unsuspend hpc
  | link hpc | publish hpc | recheck hpc | cancelLock hpc =>
      exact hearly (by rw [hpc]; rfl) rfl
  | @cancel stage v next hpc hstep =>
      obtain ⟨hv, -⟩ := hok.cancel hpc hstep
      have hmoved := hv.moved
      intro _
      rcases next with _ | _ | _ | _
      · rfl
      · simp at hmoved
      · rfl
      · rfl
  | dispatch hpc | store hpc | load hpc | stopLock hpc => exact hw
  | @stopComplete stage v next hpc hstep =>
      obtain ⟨hv, -⟩ := hok.stopComplete hpc hstep
      have hallowed := hcallback rfl
      rw [hpc] at hallowed
      have hfinished := hw.completed hallowed hok
        (by rw [hpc]; simp only [StopPc.stage]; omega) hv
      exact fun _ => hfinished
  | take caller hlinked => exact hw
  | @takerComplete caller ec stage v next htook hstep =>
      obtain ⟨hv, -⟩ := hok.takerComplete htook hstep
      have hallowed := htaker rfl
      rw [htook] at hallowed
      have hfinished := hw.completed hallowed hok
        (by rw [htook]; simp only [Option.bind_some]; omega) hv
      exact fun _ => hfinished

theorem outlives_of_by {s : State} {a : Action} {actor : Actor} {id : Nat}
    (hallowed : outlivesAwait s a = true) (hby : a.by s actor id) :
    (actor = .callback →
        (s.wait id).outlives (s.wait id).stopPc.stage = true) ∧
      (actor = .taker →
        (s.wait id).outlives ((s.wait id).taker.bind Taker.stage) = true) := by
  refine ⟨?_, ?_⟩
  · rintro rfl
    cases a with
    | callback other =>
        obtain rfl : id = other := hby
        exact hallowed
    | _ => exact hby.elim
  · rintro rfl
    cases a with
    | complete other =>
        obtain rfl : id = other := hby
        exact hallowed
    | abort =>
        obtain ⟨rest, haborting⟩ := List.head?_eq_some_iff.mp hby
        simpa [outlivesAwait, haborting] using hallowed
    | _ => exact hby.elim

/-- The steps that begin a call leave `done` and `await_suspend` alone. -/
theorem begins_late {s t : State} {a : Action} (ha : a.continues = false)
    (hstep : step s a = some t) (id : Nat) :
    (t.wait id).done = (s.wait id).done ∧ (t.wait id).pc = (s.wait id).pc := by
  cases a with
  | asyncWait =>
      simp only [step, Option.ite_none_right_eq_some,
        Option.some.injEq] at hstep
      obtain ⟨-, rfl⟩ := hstep
      have hwait : State.wait { s with waits := s.waits ++ [{}] } id = s.wait id :=
        Inventory.getD_append_default s.waits {} id
      rw [hwait]
      exact ⟨rfl, rfl⟩
  | stop other =>
      simp only [step, Option.ite_none_right_eq_some,
        Option.some.injEq] at hstep
      obtain ⟨⟨hid, -⟩, rfl⟩ := hstep
      rw [wait_put hid]
      split
      · next heq =>
          rw [heq]
          exact ⟨rfl, rfl⟩
      · exact ⟨rfl, rfl⟩
  | notify | destroy =>
      simp only [step, Option.ite_none_right_eq_some,
        Option.some.injEq] at hstep
      obtain ⟨-, rfl⟩ := hstep
      exact ⟨rfl, rfl⟩
  | await _ | callback _ | notifyLock | complete _ | destroyLock | abort =>
      simp [Action.continues] at ha

theorem step_late {s t : State} {a : Action} (hs : Inv s)
    (hlate : ∀ id, (s.wait id).Late) (hallowed : outlivesAwait s a = true)
    (hstep : step s a = some t) (id : Nat) : (t.wait id).Late := by
  -- The locked sections take a waiter off the list and complete nothing.
  have hlock : ∀ v, v = s.wait id ∨ Move (s.wait id) .lock v → v.Late := by
    rintro v (rfl | hmove)
    · exact hlate id
    · exact hmove.late (hs.waits id) (hlate id) (by simp) (by simp)
  cases ha : a.continues with
  | false =>
      obtain ⟨hdone, hpc⟩ := begins_late ha hstep id
      intro hset
      rw [hpc]
      exact hlate id (hdone ▸ hset)
  | true =>
      rcases continues_cases ha hstep with
        ⟨actor, moved, w, hby, hmoves⟩ | ⟨-, rfl⟩ | ⟨-, rfl⟩
      · obtain ⟨hcallback, htaker⟩ := outlives_of_by hallowed hby
        rw [hmoves.wait]
        split
        · exact hmoves.move.late (hs.waits moved) (hlate moved) hcallback htaker
        · exact hlate id
      · exact hlock _ (notifyLock_wait hs id)
      · exact hlock _ (destroyLock_wait hs id)

structure LateInv (s : State) : Prop extends Inv s where
  late : ∀ id, (s.wait id).Late

theorem start_lateInv : LateInv system.start :=
  { start_inv with
    late := fun id hdone => by simp [system, State.wait] at hdone }

theorem LateInv.noLateAccess {s : State} (hs : LateInv s) {id : Nat}
    (hposted : 0 < (s.wait id).posted) : (s.wait id).pc.accesses = false := by
  apply hs.late id
  have hcount := (hs.waits id).count
  by_contra hdone
  rw [Bool.not_eq_true] at hdone
  rw [hdone, Bool.toNat_false] at hcount
  omega

end ConditionWaiter

/-! ## Resumption comes last -/

/-- In every run in which no completion overtakes `await_suspend`, it does not
use the promise or the awaiter once the resumption of the coroutine is posted:
neither in `operation_awaiter`, nor in `resolve_awaiter`, nor in
`wait_awaiter`. -/
theorem no_access_after_post (algorithms : BinaryHeap.Algorithms Nat) (fd : Int) :
    (∀ s, (OperationAwaiter.system algorithms fd).ReachableUnder
        (fun s a => OperationAwaiter.outlivesRegistration s a = true) s →
      s.posted = true → s.pc.accesses = false) ∧
    (∀ s, ResolveAwaiter.system.ReachableUnder
        (fun s a => ResolveAwaiter.outlivesPoolPost s a = true) s →
      0 < s.posted → s.pc.accesses = false) ∧
    (∀ s, ConditionWaiter.system.ReachableUnder
        (fun s a => ConditionWaiter.outlivesAwait s a = true) s →
      ∀ id, 0 < (s.wait id).posted → (s.wait id).pc.accesses = false) := by
  refine ⟨fun s hs => ?_, fun s hs => ?_, fun s hs id => ?_⟩
  · have hinv : OperationAwaiter.Inv s := hs.invariant
      (OperationAwaiter.start_inv algorithms fd)
      (fun _ _ _ hinv hallowed hstep =>
        OperationAwaiter.step_inv algorithms hinv hallowed hstep)
    exact hinv.noLateAccess
  · have hinv : ResolveAwaiter.Inv s := hs.invariant ResolveAwaiter.start_inv
      (fun _ _ _ hinv hallowed hstep =>
        ResolveAwaiter.step_inv hinv hallowed hstep)
    exact hinv.noLateAccess
  · have hinv : ConditionWaiter.LateInv s := hs.invariant
      ConditionWaiter.start_lateInv
      (fun _ _ _ hinv hallowed hstep =>
        { ConditionWaiter.step_inv hinv.toInv hstep with
          late := ConditionWaiter.step_late hinv.toInv hinv.late hallowed hstep })
    exact hinv.noLateAccess

/-- A read wait on descriptor 0 that is registered and then becomes ready. -/
def readyAfterWait : List OperationAwaiter.Action :=
  [.reactor (.addFd 0), .await (.fd .read), .proceed, .proceed, .proceed,
    .proceed, .proceed, .proceed,
    .reactor (.event { fd := 0, canRead := true })]

/-- A name that is resolved by the pool. -/
def resolvedByPool : List ResolveAwaiter.Action :=
  [.proceed, .proceed, .proceed, .proceed, .proceed, .work, .work, .work, .work]

/-- A waiter that is notified after it has suspended. -/
def notifiedAfterSuspend : List ConditionWaiter.Action :=
  [.asyncWait, .await 0, .await 0, .await 0, .await 0, .await 0, .notify,
    .notifyLock, .complete 0, .complete 0, .complete 0]

theorem no_access_after_post_inOrder :
    (∃ s : OperationAwaiter.State, s.posted = true ∧ s.pc.accesses = false) ∧
    (∃ s : ResolveAwaiter.State, 0 < s.posted ∧ s.pc.accesses = false) ∧
    ∃ s : ConditionWaiter.State,
      0 < (s.wait 0).posted ∧ (s.wait 0).pc.accesses = false := by
  obtain ⟨hoperation, hresolve, hwait⟩ :=
    no_access_after_post (BinaryHeap.sorted Nat) 0
  refine ⟨?_, ?_, ?_⟩
  · obtain ⟨s, hs, hposted⟩ :=
      TransitionSystem.exists_reachableUnder_of_execUnder
        (OperationAwaiter.system (BinaryHeap.sorted Nat) 0)
        (fun s a => OperationAwaiter.outlivesRegistration s a = true)
        readyAfterWait (fun s => s.posted) (by decide)
    exact ⟨s, hposted, hoperation s hs hposted⟩
  · obtain ⟨s, hs, hposted⟩ :=
      TransitionSystem.exists_reachableUnder_of_execUnder ResolveAwaiter.system
        (fun s a => ResolveAwaiter.outlivesPoolPost s a = true)
        resolvedByPool (fun s => decide (0 < s.posted)) (by decide)
    have hposted := of_decide_eq_true hposted
    exact ⟨s, hposted, hresolve s hs hposted⟩
  · obtain ⟨s, hs, hposted⟩ :=
      TransitionSystem.exists_reachableUnder_of_execUnder ConditionWaiter.system
        (fun s a => ConditionWaiter.outlivesAwait s a = true)
        notifiedAfterSuspend (fun s => decide (0 < (s.wait 0).posted))
        (by decide)
    have hposted := of_decide_eq_true hposted
    exact ⟨s, hposted, hwait s hs 0 hposted⟩

/-- The descriptor is ready before the wait: `register_fd_impl` completes the
operation, and `set_read_handle` is still to be called. -/
def readyBeforeWait : List OperationAwaiter.Action :=
  [.reactor (.addFd 0), .reactor (.event { fd := 0, canRead := true }),
    .await (.fd .read), .proceed, .proceed]

/-- Stop is requested between the installation of the callback and the call of
`pool_ex.post`. -/
def stoppedBeforePool : List ResolveAwaiter.Action :=
  [.proceed, .proceed, .proceed, .proceed, .requestStop, .callback, .callback,
    .callback]

/-- A `notify` completes the waiter before `suspended` is published. -/
def notifiedBeforeSuspend : List ConditionWaiter.Action :=
  [.asyncWait, .await 0, .await 0, .await 0, .notify, .notifyLock, .complete 0,
    .complete 0, .complete 0]

theorem access_after_post :
    (¬ ∀ s, (OperationAwaiter.system (BinaryHeap.sorted Nat) 0).Reachable s →
      s.posted = true → s.pc.accesses = false) ∧
    (¬ ∀ s, ResolveAwaiter.system.Reachable s →
      0 < s.posted → s.pc.accesses = false) ∧
    ¬ ∀ s, ConditionWaiter.system.Reachable s →
      ∀ id, 0 < (s.wait id).posted → (s.wait id).pc.accesses = false := by
  refine ⟨fun hall => ?_, fun hall => ?_, fun hall => ?_⟩
  · obtain ⟨s, hs, hend⟩ := TransitionSystem.exists_reachable_of_exec
      (OperationAwaiter.system (BinaryHeap.sorted Nat) 0) readyBeforeWait
      (fun s => s.posted && s.pc.accesses) (by decide)
    rw [Bool.and_eq_true] at hend
    simp [hall s hs hend.1] at hend
  · obtain ⟨s, hs, hend⟩ := TransitionSystem.exists_reachable_of_exec
      ResolveAwaiter.system stoppedBeforePool
      (fun s => decide (0 < s.posted) && s.pc.accesses) (by decide)
    rw [Bool.and_eq_true, decide_eq_true_eq] at hend
    simp [hall s hs hend.1] at hend
  · obtain ⟨s, hs, hend⟩ := TransitionSystem.exists_reachable_of_exec
      ConditionWaiter.system notifiedBeforeSuspend
      (fun s => decide (0 < (s.wait 0).posted) && (s.wait 0).pc.accesses)
      (by decide)
    rw [Bool.and_eq_true, decide_eq_true_eq] at hend
    simp [hall s hs 0 hend.1] at hend

end Iocoro
