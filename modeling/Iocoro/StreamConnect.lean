/-
`stream_socket_impl::async_connect` against the kernel and the reactor.  The
socket lives on one descriptor; the kernel raises readiness, the reactor
delivers it to `fd_registry`, where it completes the wait of the connect or is
latched.  `close()` is not called in these runs, so `closing()` is false.
-/
import Iocoro.FdRegistry
import Iocoro.TransitionSystem

namespace Iocoro

namespace StreamConnect

/-- The kernel's socket; a failed connect keeps its error for `SO_ERROR`. -/
inductive Kernel where
  | fresh
  | connecting
  | connected
  | failed (errno : Nat)
deriving DecidableEq, Repr

inductive ConnState where
  | disconnected
  | connecting
  | connected
deriving DecidableEq, Repr

/-- What `::connect` answers: success, or the error number. -/
inductive Answer where
  | success
  | eintr
  | eisconn
  | einprogress
  | ealready
  | eagain
  | error (errno : Nat)
deriving DecidableEq, Repr

/-- The kernel's side of `::connect`: which answers it gives in a state, and
the state afterwards.  An interrupted call may have started the connection; a
refused one leaves the socket as it was, having reported a pending error. -/
def Kernel.connects : Kernel → Answer → Kernel → Bool
  | .fresh, .success, .connected => true
  | .connected, .success, .connected => true
  | .fresh, .einprogress, .connecting => true
  | .connecting, .ealready, .connecting => true
  | .connected, .eisconn, .connected => true
  | .fresh, .eintr, .connecting => true
  | .fresh, .error _, .fresh => true
  | .failed _, .error _, .fresh => true
  | before, .eintr, after => decide (after = before)
  | .fresh, .eagain, .fresh => true
  | _, _, _ => false

/-- `SO_ERROR`, and the socket after it was read. -/
def Kernel.soError : Kernel → Nat × Kernel
  | .failed errno => (errno, .fresh)
  | kernel => (0, kernel)

/-- Where `async_connect` stands. -/
inductive Pc where
  | idle
  | check
  | connect
  | wait
  | waiting
  | woken (ec : ErrorCode)
  | recheck
  | soError
  | finalCheck
  | commit
  | returned (ec : ErrorCode)
deriving DecidableEq, Repr

/-- `raised` is an event in the kernel not yet returned by `epoll_wait`,
`captured` the events returned and not yet passed to `take_ready`.  The one
operation the registry stores is the wait of the connect. -/
structure State where
  kernel : Kernel := .fresh
  registered : Bool := false
  trackDue : Bool := false
  opened : Bool := false
  raised : Bool := false
  captured : List BackendEvent := []
  fds : FdRegistry Unit := {}
  connState : ConnState := .disconnected
  epochCurrent : Bool := true
  pc : Pc := .idle
deriving DecidableEq, Repr

inductive Action where
  | backendAddFd
  | track
  | openReturns
  | connectFinishes (errno : Nat)
  | epollWait (event : BackendEvent)
  | dispatch
  | cancelConnect
  | cancelFdEvent (token : Nat)
  | backendFailure
  | start
  | check
  | connect (answer : Answer) (kernel : Kernel)
  | registerWait
  | resume
  | readSoError
  | commit
deriving DecidableEq, Repr

/-- `co_return` with an error, from inside the call. -/
def State.fail (s : State) (ec : ErrorCode) : State :=
  { s with connState := .disconnected, pc := .returned ec }

/-- The callback of the stored wait. -/
def State.wake (s : State) (op : Option Unit) (ec : ErrorCode) : State :=
  if op.isSome ∧ s.pc = .waiting then { s with pc := .woken ec } else s

/-- The steps of the kernel, of the reactor and of other threads. -/
def environment (fd : Nat) (s : State) : Action → Option State
  | .backendAddFd =>
      if s.registered then none
      else some { s with registered := true, trackDue := true, raised := true }
  | .track =>
      if s.trackDue then some { s with fds := s.fds.track fd, trackDue := false }
      else none
  | .openReturns => if s.registered then some { s with opened := true } else none
  | .connectFinishes errno =>
      if s.kernel = .connecting then
        some { s with
          kernel := if errno = 0 then .connected else .failed errno
          raised := true }
      else none
  | .epollWait event =>
      if s.raised ∧ event.fd = fd then
        some { s with raised := false, captured := s.captured ++ [event] }
      else none
  | .dispatch =>
      match s.captured with
      | [] => none
      | event :: rest =>
          let taken := s.fds.takeReady fd event.canRead event.canWrite
          some ({ s with captured := rest, fds := taken.1 }.wake taken.2.write
            (if event.isError then event.ec else .none))
  | .cancelConnect => some { s with epochCurrent := false }
  | .cancelFdEvent token =>
      let cancelled := s.fds.cancel fd .write token
      some ({ s with fds := cancelled.1 }.wake cancelled.2.removed
        .operationAborted)
  | .backendFailure =>
      let drained := s.fds.drainAll
      some ({ s with fds := drained.1 }.wake drained.2.ops.head?
        .internalError)
  | _ => none

/-- The answers to `::connect` that make `async_connect` wait. -/
def Answer.pending : Answer → Bool
  | .einprogress => true
  | .ealready => true
  | .eagain => true
  | _ => false

/-- The branches after `::connect`. -/
def afterConnect (s : State) : Answer → State
  | .success => { s with connState := .connected, pc := .returned .none }
  | .eisconn => { s with connState := .connected, pc := .returned .none }
  | .eintr => { s with pc := .check }
  | .error errno => s.fail (.system errno)
  | _ => { s with pc := .wait }

/-- The checks under the lock; only one call is made at a time. -/
def State.startCall (s : State) : State :=
  if !s.opened then { s with pc := .returned .notOpen }
  else
    match s.connState with
    | .connecting => { s with pc := .returned .busy }
    | .connected => { s with pc := .returned .alreadyConnected }
    | .disconnected =>
        { s with connState := .connecting, epochCurrent := true, pc := .check }

/-- The steps of `async_connect` itself. -/
def program (fd : Nat) (s : State) (a : Action) : Option State :=
  match a, s.pc with
  | .start, .idle => some s.startCall
  | .start, .returned _ => some s.startCall
  | .check, .check =>
      some (if s.epochCurrent then { s with pc := .connect }
        else s.fail .operationAborted)
  | .connect answer kernel, .connect =>
      if s.kernel.connects answer kernel then
        some (afterConnect { s with kernel } answer)
      else none
  | .registerWait, .wait =>
      let registered := s.fds.registerImpl fd (some ()) .write
      some { s with
        fds := registered.1
        pc := if registered.2.readyNow.isSome then .woken .none else .waiting }
  | .resume, .woken ec =>
      some (if ec = .none ∨ ec = .eof ∨ ec = .connectionReset then
          { s with pc := .recheck }
        else s.fail ec)
  | .check, .recheck =>
      some (if s.epochCurrent then { s with pc := .soError }
        else s.fail .operationAborted)
  | .readSoError, .soError =>
      let (soError, kernel) := s.kernel.soError
      some (if soError = 0 then { s with kernel, pc := .finalCheck }
        else { s with kernel }.fail (.system soError))
  | .check, .finalCheck =>
      some (if s.epochCurrent then { s with pc := .commit }
        else s.fail .operationAborted)
  | .commit, .commit =>
      some { s with connState := .connected, pc := .returned .none }
  | _, _ => none

def step (fd : Nat) (s : State) (a : Action) : Option State :=
  match environment fd s a with
  | some t => some t
  | none => program fd s a

def system (fd : Nat) : TransitionSystem State Action where
  start := {}
  step := step fd

/-- No readiness of the past is on its way or latched for writing. -/
def State.clean (fd : Nat) (s : State) : Bool :=
  !s.raised && s.captured.isEmpty && !(s.fds.slotAt fd .write).ready

/-- When `::connect` is answered so that the call has to wait, the connection
is under way and no earlier readiness can end the wait. -/
def waitsForNews (fd : Nat) (s : State) : Action → Bool
  | .connect answer _ =>
      !answer.pending || (answer != .eagain && s.clean fd)
  | _ => true

/-- `async_connect` reports success for an established connection only. -/
structure Sound (s : State) : Prop where
  returnsOk : s.pc = .returned .none → s.kernel = .connected
  stateConnected : s.connState = .connected → s.kernel = .connected

/-- The pending connect is over. -/
def Kernel.Settled (kernel : Kernel) : Prop :=
  kernel ≠ .fresh ∧ kernel ≠ .connecting

/-- What `async_connect` knows of the kernel at each point: while it waits, an
unfinished connect has raised nothing, so a wait that ended with readiness
ended after the connect had finished. -/
def Evidence (fd : Nat) (s : State) : Prop :=
  match s.pc with
  | .check | .connect => s.registered = true
  | .wait | .waiting =>
      s.registered = true ∧ s.kernel ≠ .fresh ∧
        (s.kernel = .connecting → s.clean fd = true)
  | .woken ec =>
      ec = .none ∨ ec = .eof ∨ ec = .connectionReset → s.kernel.Settled
  | .recheck | .soError => s.kernel.Settled
  | .finalCheck | .commit => s.kernel = .connected
  | .returned ec => ec = .none → s.kernel = .connected
  | .idle => True

structure Inv (fd : Nat) (s : State) : Prop where
  evidence : Evidence fd s
  connected : s.connState = .connected → s.kernel = .connected
  nonzero : ∀ errno, s.kernel = .failed errno → errno ≠ 0
  opened : s.opened = true → s.registered = true

theorem start_inv (fd : Nat) : Inv fd (system fd).start :=
  ⟨trivial, by simp [system], by simp [system], by simp [system]⟩

theorem Inv.sound {fd : Nat} {s : State} (hs : Inv fd s) : Sound s := by
  refine ⟨?_, hs.connected⟩
  intro hpc
  have hevidence := hs.evidence
  simp only [Evidence, hpc] at hevidence
  exact hevidence trivial

/-! ### The environment -/

/-- Steps that change neither the call nor the kernel. -/
theorem Inv.frame {fd : Nat} {s t : State} (hs : Inv fd s)
    (hkernel : t.kernel = s.kernel) (hconn : t.connState = s.connState)
    (hpc : t.pc = s.pc) (hregistered : t.registered = s.registered)
    (hopened : t.opened = true → t.registered = true)
    (hclean : s.clean fd = true → t.clean fd = true) : Inv fd t := by
  refine ⟨?_, ?_, ?_, hopened⟩
  · have hevidence := hs.evidence
    unfold Evidence at hevidence ⊢
    rw [hpc, hkernel, hregistered]
    split at hevidence
    · exact hevidence
    · exact hevidence
    · exact ⟨hevidence.1, hevidence.2.1, fun h => hclean (hevidence.2.2 h)⟩
    · exact ⟨hevidence.1, hevidence.2.1, fun h => hclean (hevidence.2.2 h)⟩
    all_goals exact hevidence
  · rw [hconn, hkernel]
    exact hs.connected
  · rw [hkernel]
    exact hs.nonzero

/-- A callback ends the wait; with readiness it comes after the connect has
finished. -/
theorem Inv.wake {fd : Nat} {s : State} (hs : Inv fd s) (op : Option Unit)
    (ec : ErrorCode)
    (hsettled : s.pc = .waiting →
      ec = .none ∨ ec = .eof ∨ ec = .connectionReset → s.kernel.Settled) :
    Inv fd (s.wake op ec) := by
  unfold State.wake
  split
  · next hwaiting =>
      exact ⟨hsettled hwaiting.2, hs.connected, hs.nonzero, hs.opened⟩
  · exact hs

theorem clean_iff {fd : Nat} {s : State} :
    s.clean fd = true ↔ s.raised = false ∧ s.captured = [] ∧
      (s.fds.slotAt fd .write).ready = false := by
  simp [State.clean, and_assoc]

theorem dispatch_inv {fd : Nat} {s t : State} (hs : Inv fd s)
    (hstep : environment fd s .dispatch = some t) : Inv fd t := by
  simp only [environment] at hstep
  split at hstep
  · simp at hstep
  · next event rest hcaptured =>
      obtain rfl := Option.some.inj hstep
      have hunclean : s.clean fd ≠ true := by
        intro hclean
        rw [(clean_iff.mp hclean).2.1] at hcaptured
        simp at hcaptured
      apply Inv.wake
      · exact hs.frame rfl rfl rfl rfl hs.opened
          (fun hclean => absurd hclean hunclean)
      · intro (hpc : s.pc = .waiting) _
        have hevidence := hs.evidence
        simp only [Evidence, hpc] at hevidence
        exact ⟨hevidence.2.1, fun h => hunclean (hevidence.2.2 h)⟩

theorem connectFinishes_inv {fd errno : Nat} {s t : State} (hs : Inv fd s)
    (hstep : environment fd s (.connectFinishes errno) = some t) :
    Inv fd t := by
  simp only [environment, Option.ite_none_right_eq_some,
    Option.some.injEq] at hstep
  obtain ⟨hconnecting, rfl⟩ := hstep
  have hsettled : (if errno = 0 then Kernel.connected
      else .failed errno).Settled := by
    split <;> exact ⟨by simp, by simp⟩
  have hnot : s.kernel ≠ .connected := by simp [hconnecting]
  refine ⟨?_, fun h => absurd (hs.connected h) hnot, ?_, hs.opened⟩
  · have hevidence := hs.evidence
    unfold Evidence at hevidence ⊢
    cases hpc : s.pc with
    | check | connect => simpa [hpc] using hevidence
    | wait | waiting =>
        simp only [hpc] at hevidence ⊢
        exact ⟨hevidence.1, hsettled.1, fun h => absurd h hsettled.2⟩
    | woken ec => exact fun _ => hsettled
    | recheck | soError => exact hsettled
    | finalCheck | commit =>
        simp only [hpc] at hevidence
        exact absurd hevidence hnot
    | returned ec =>
        simp only [hpc] at hevidence ⊢
        exact fun h => absurd (hevidence h) hnot
    | idle => trivial
  · intro e he
    split at he
    · simp at he
    · next hne =>
        rw [Kernel.failed.injEq] at he
        exact he ▸ hne

theorem backendAddFd_inv {fd : Nat} {s t : State} (hs : Inv fd s)
    (hstep : environment fd s .backendAddFd = some t) : Inv fd t := by
  simp only [environment, Option.ite_none_left_eq_some,
    Option.some.injEq] at hstep
  obtain ⟨hunregistered, rfl⟩ := hstep
  refine ⟨?_, hs.connected, hs.nonzero, fun _ => rfl⟩
  have hevidence := hs.evidence
  unfold Evidence at hevidence ⊢
  cases hpc : s.pc with
  | check | connect => rfl
  | wait | waiting =>
      simp only [hpc] at hevidence
      exact absurd hevidence.1 hunregistered
  | _ => rwa [hpc] at hevidence

theorem environment_inv {fd : Nat} {s t : State} {a : Action} (hs : Inv fd s)
    (hstep : environment fd s a = some t) : Inv fd t := by
  cases a with
  | backendAddFd => exact backendAddFd_inv hs hstep
  | connectFinishes errno => exact connectFinishes_inv hs hstep
  | dispatch => exact dispatch_inv hs hstep
  | track =>
      simp only [environment, Option.ite_none_right_eq_some,
        Option.some.injEq] at hstep
      obtain ⟨_, rfl⟩ := hstep
      refine hs.frame rfl rfl rfl rfl hs.opened ?_
      rw [clean_iff, clean_iff, FdRegistry.track_slotAt]
      exact id
  | openReturns =>
      simp only [environment, Option.ite_none_right_eq_some,
        Option.some.injEq] at hstep
      obtain ⟨hregistered, rfl⟩ := hstep
      exact hs.frame rfl rfl rfl rfl (fun _ => hregistered) id
  | epollWait event =>
      simp only [environment, Option.ite_none_right_eq_some,
        Option.some.injEq] at hstep
      obtain ⟨hraised, rfl⟩ := hstep
      refine hs.frame rfl rfl rfl rfl hs.opened ?_
      intro hclean
      rw [(clean_iff.mp hclean).1] at hraised
      simp at hraised
  | cancelConnect =>
      obtain rfl := Option.some.inj hstep
      exact hs.frame rfl rfl rfl rfl hs.opened id
  | cancelFdEvent token =>
      obtain rfl := Option.some.inj hstep
      apply Inv.wake
      · refine hs.frame rfl rfl rfl rfl hs.opened ?_
        rw [clean_iff, clean_iff, FdRegistry.cancel_ready]
        exact id
      · intro _ hec
        simp at hec
  | backendFailure =>
      obtain rfl := Option.some.inj hstep
      apply Inv.wake
      · refine hs.frame rfl rfl rfl rfl hs.opened ?_
        rw [clean_iff, clean_iff]
        exact fun h => ⟨h.1, h.2.1, FdRegistry.drainAll_ready _ h.2.2⟩
      · intro _ hec
        simp at hec
  | _ => simp [environment] at hstep

/-! ### The call -/

theorem Inv.fail {fd : Nat} {s : State} (hs : Inv fd s) {ec : ErrorCode}
    (hec : ec ≠ .none) : Inv fd (s.fail ec) :=
  ⟨fun h => absurd h hec, by simp [State.fail], hs.nonzero, hs.opened⟩

/-- A check of the epoch goes on to the next stage or fails the call. -/
theorem Inv.check {fd : Nat} {s : State} (hs : Inv fd s) {pc : Pc}
    (hevidence : Evidence fd { s with pc := pc }) :
    Inv fd (if s.epochCurrent then { s with pc := pc }
      else s.fail .operationAborted) := by
  split
  · exact ⟨hevidence, hs.connected, hs.nonzero, hs.opened⟩
  · exact hs.fail (by simp)

theorem Inv.startCall {fd : Nat} {s : State} (hs : Inv fd s) :
    Inv fd s.startCall := by
  unfold State.startCall
  split
  · exact ⟨by simp [Evidence], hs.connected, hs.nonzero, hs.opened⟩
  · next hopened =>
      split
      · exact ⟨by simp [Evidence], hs.connected, hs.nonzero, hs.opened⟩
      · exact ⟨by simp [Evidence], hs.connected, hs.nonzero, hs.opened⟩
      · refine ⟨?_, by simp, hs.nonzero, hs.opened⟩
        exact hs.opened (by simpa using hopened)

/-- What an answer says about the socket before and after it. -/
theorem Kernel.connects_spec {before after : Kernel} {answer : Answer}
    (hanswer : before.connects answer after = true) :
    (answer = .success ∨ answer = .eisconn → after = .connected) ∧
    (answer = .einprogress ∨ answer = .ealready → after = .connecting) ∧
    (before = .connected → after = .connected) ∧
    ∀ errno, after = .failed errno → before = .failed errno := by
  cases answer <;> cases before <;> cases after <;> simp_all [Kernel.connects]

theorem Kernel.connects_connected {before after : Kernel} {answer : Answer}
    (hanswer : before.connects answer after = true)
    (hsuccess : answer = .success ∨ answer = .eisconn) : after = .connected :=
  (connects_spec hanswer).1 hsuccess

theorem Kernel.connects_connecting {before after : Kernel} {answer : Answer}
    (hanswer : before.connects answer after = true)
    (hpending : answer = .einprogress ∨ answer = .ealready) :
    after = .connecting :=
  (connects_spec hanswer).2.1 hpending

theorem Kernel.connects_stays {answer : Answer} {after : Kernel}
    (hanswer : Kernel.connects .connected answer after = true) :
    after = .connected :=
  (connects_spec hanswer).2.2.1 rfl

theorem Kernel.connects_failed {before : Kernel} {answer : Answer} {errno : Nat}
    (hanswer : before.connects answer (.failed errno) = true) :
    before = .failed errno :=
  (connects_spec hanswer).2.2.2 errno rfl

/-- The kernel's answer leaves what the call goes on with. -/
theorem connect_inv {fd : Nat} {s : State} {answer : Answer} {kernel : Kernel}
    (hs : Inv fd s) (hpc : s.pc = .connect)
    (hnews : waitsForNews fd s (.connect answer kernel) = true)
    (hanswer : s.kernel.connects answer kernel = true) :
    Inv fd (afterConnect { s with kernel } answer) := by
  have hevidence := hs.evidence
  simp only [Evidence, hpc] at hevidence
  have hconn : s.connState = .connected → kernel = .connected := by
    intro hstate
    rw [hs.connected hstate] at hanswer
    exact Kernel.connects_stays hanswer
  have hnonzero : ∀ errno, kernel = .failed errno → errno ≠ 0 := by
    rintro errno rfl
    exact hs.nonzero errno (Kernel.connects_failed hanswer)
  have hwait : answer = .einprogress ∨ answer = .ealready →
      Inv fd { s with kernel, pc := .wait } := by
    intro hpending
    have hkernel := Kernel.connects_connecting hanswer hpending
    have hclean : s.clean fd = true := by
      rcases hpending with rfl | rfl <;>
        simpa [waitsForNews, Answer.pending] using hnews
    exact ⟨⟨hevidence, by simp [hkernel], fun _ => hclean⟩, hconn, hnonzero,
      hs.opened⟩
  cases answer with
  | success =>
      have hkernel := Kernel.connects_connected hanswer (Or.inl rfl)
      exact ⟨fun _ => hkernel, fun _ => hkernel, hnonzero, hs.opened⟩
  | eisconn =>
      have hkernel := Kernel.connects_connected hanswer (Or.inr rfl)
      exact ⟨fun _ => hkernel, fun _ => hkernel, hnonzero, hs.opened⟩
  | eintr => exact ⟨hevidence, hconn, hnonzero, hs.opened⟩
  | error errno =>
      exact ⟨by simp [Evidence, afterConnect, State.fail],
        by simp [afterConnect, State.fail], hnonzero, hs.opened⟩
  | einprogress => exact hwait (Or.inl rfl)
  | ealready => exact hwait (Or.inr rfl)
  | eagain => simp [waitsForNews, Answer.pending] at hnews

/-- Latched readiness ends the wait at once; with a connect under way there is
none, and registering leaves none behind. -/
theorem registerWait_inv {fd : Nat} {s : State} (hs : Inv fd s)
    (hpc : s.pc = .wait) :
    Inv fd { s with
      fds := (s.fds.registerImpl fd (some ()) .write).1
      pc := if (s.fds.registerImpl fd (some ()) .write).2.readyNow.isSome
        then .woken .none else .waiting } := by
  have hevidence := hs.evidence
  simp only [Evidence, hpc] at hevidence
  obtain ⟨hregistered, hfresh, hclean⟩ := hevidence
  have hfd : (0 : Int) ≤ fd := by omega
  refine ⟨?_, hs.connected, hs.nonzero, hs.opened⟩
  rw [FdRegistry.registerImpl_readyNow _ hfd, Int.toNat_natCast]
  split
  · next hready =>
      intro _
      refine ⟨hfresh, ?_⟩
      intro hconnecting
      have hlatch := (clean_iff.mp (hclean hconnecting)).2.2
      rw [hready] at hlatch
      simp at hlatch
  · refine ⟨hregistered, hfresh, ?_⟩
    intro hconnecting
    obtain ⟨hraised, hcaptured, _⟩ := clean_iff.mp (hclean hconnecting)
    have hready := s.fds.registerImpl_ready hfd () .write
    rw [Int.toNat_natCast] at hready
    exact clean_iff.mpr ⟨hraised, hcaptured, hready⟩

theorem resume_inv {fd : Nat} {s : State} {ec : ErrorCode} (hs : Inv fd s)
    (hpc : s.pc = .woken ec) :
    Inv fd (if ec = .none ∨ ec = .eof ∨ ec = .connectionReset then
        { s with pc := .recheck }
      else s.fail ec) := by
  have hevidence := hs.evidence
  simp only [Evidence, hpc] at hevidence
  split
  · next hready =>
      exact ⟨hevidence hready, hs.connected, hs.nonzero, hs.opened⟩
  · next hfailed =>
      apply hs.fail
      intro hnone
      exact hfailed (Or.inl hnone)

/-- A finished connect whose error is zero is established. -/
theorem readSoError_inv {fd : Nat} {s : State} (hs : Inv fd s)
    (hpc : s.pc = .soError) :
    Inv fd (if s.kernel.soError.1 = 0 then
        { s with kernel := s.kernel.soError.2, pc := .finalCheck }
      else { s with kernel := s.kernel.soError.2 }.fail
        (.system s.kernel.soError.1)) := by
  have hevidence := hs.evidence
  simp only [Evidence, hpc] at hevidence
  cases hkernel : s.kernel with
  | fresh => exact absurd hkernel hevidence.1
  | connecting => exact absurd hkernel hevidence.2
  | connected =>
      refine ⟨rfl, fun _ => rfl, ?_, hs.opened⟩
      intro errno herrno
      simp [Kernel.soError] at herrno
  | failed errno =>
      have hnonzero := hs.nonzero errno hkernel
      simp only [Kernel.soError, hnonzero, ↓reduceIte]
      exact ⟨by simp [Evidence, State.fail], by simp [State.fail],
        by simp [State.fail], hs.opened⟩

theorem program_inv {fd : Nat} {s t : State} {a : Action} (hs : Inv fd s)
    (hnews : waitsForNews fd s a = true) (hstep : program fd s a = some t) :
    Inv fd t := by
  have hevidence := hs.evidence
  unfold program at hstep
  split at hstep
  · obtain rfl := Option.some.inj hstep
    exact hs.startCall
  · obtain rfl := Option.some.inj hstep
    exact hs.startCall
  · next hpc =>
      obtain rfl := Option.some.inj hstep
      simp only [Evidence, hpc] at hevidence
      exact hs.check hevidence
  · next hpc =>
      simp only [Option.ite_none_right_eq_some, Option.some.injEq] at hstep
      obtain ⟨hanswer, rfl⟩ := hstep
      exact connect_inv hs hpc hnews hanswer
  · next hpc =>
      obtain rfl := Option.some.inj hstep
      exact registerWait_inv hs hpc
  · next hpc =>
      obtain rfl := Option.some.inj hstep
      exact resume_inv hs hpc
  · next hpc =>
      obtain rfl := Option.some.inj hstep
      simp only [Evidence, hpc] at hevidence
      exact hs.check hevidence
  · next hpc =>
      obtain rfl := Option.some.inj hstep
      exact readSoError_inv hs hpc
  · next hpc =>
      obtain rfl := Option.some.inj hstep
      simp only [Evidence, hpc] at hevidence
      exact hs.check hevidence
  · next hpc =>
      obtain rfl := Option.some.inj hstep
      simp only [Evidence, hpc] at hevidence
      exact ⟨fun _ => hevidence, fun _ => hevidence, hs.nonzero, hs.opened⟩
  · simp at hstep

theorem step_inv {fd : Nat} {s t : State} {a : Action} (hs : Inv fd s)
    (hnews : waitsForNews fd s a = true) (hstep : step fd s a = some t) :
    Inv fd t := by
  unfold step at hstep
  split at hstep
  · next henvironment =>
      obtain rfl := Option.some.inj hstep
      exact environment_inv hs henvironment
  · exact program_inv hs hnews hstep

end StreamConnect

end Iocoro
