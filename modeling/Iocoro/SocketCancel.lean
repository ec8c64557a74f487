/-
Cancelling one operation of a stream socket.  The operation runs through its
epoch check, the system call and `wait_ready_impl`; calls of `cancel`,
`cancel_read`, `cancel_write` and `cancel_connect` run at the same time on any
number of threads.
-/
import Iocoro.FdRegistry
import Iocoro.FdResource
import Iocoro.TransitionSystem

namespace Iocoro

namespace SocketCancel

/-- `async_read_some`, `async_write_some` and `async_connect`. -/
inductive OpKind where
  | read
  | write
  | connect
deriving DecidableEq, Repr

/-- The direction an operation waits for. -/
def OpKind.direction : OpKind → FdEventKind
  | .read => .read
  | .write => .write
  | .connect => .write

/-- Whether the operation tries its system call again after a wait. -/
def OpKind.loops : OpKind → Bool
  | .connect => false
  | _ => true

inductive CancelKind where
  | cancel
  | cancelRead
  | cancelWrite
  | cancelConnect
deriving DecidableEq, Repr

/-- The call advances the epoch in the `op_state` of the operation. -/
def CancelKind.bumpsOp : CancelKind → OpKind → Bool
  | .cancel, _ => true
  | .cancelRead, .read => true
  | .cancelWrite, .write => true
  | .cancelConnect, .connect => true
  | _, _ => false

/-- The call advances the cancel epoch of the direction. -/
def CancelKind.bumpsFd : CancelKind → FdEventKind → Bool
  | .cancelRead, .read => true
  | .cancelWrite, .write => true
  | .cancelConnect, .write => true
  | _, _ => false

/-- The call takes the published handle of the direction. -/
def CancelKind.sweeps : CancelKind → FdEventKind → Bool
  | .cancel, _ => true
  | kind, direction => kind.bumpsFd direction

/-- The calls that are meant to reach the operation. -/
def CancelKind.addresses : CancelKind → OpKind → Bool
  | .cancelWrite, .connect => true
  | kind, op => kind.bumpsOp op

inductive Stage where
  | bumpOp
  | bumpFd
  | sweep
  | dispatch (token : Nat)
deriving DecidableEq, Repr

/-- A cancel call in progress; `after` says that it addresses the operation and
was made after its `try_start`. -/
structure Call where
  kind : CancelKind
  after : Bool
  stage : Stage
deriving DecidableEq, Repr

/-- Where the operation stands. -/
inductive Pc where
  | idle
  | check
  | attempt
  | guard
  | hop
  | register
  | publish (token : Nat) (readyNow : Bool)
  | waiting (token : Nat)
  | woken (ok : Bool)
  | recheck
  | done
deriving DecidableEq, Repr

/-- `swept` and `returned` tell whether a call made after `try_start` has taken
the handle, and has returned. -/
structure State where
  pc : Pc := .idle
  opEpoch : Nat := 0
  myEpoch : Nat := 0
  cancelEpoch : Nat := 0
  resource : FdResource
  fds : FdRegistry Unit := {}
  calls : List Call := []
  queued : List Nat := []
  swept : Bool := false
  returned : Bool := false
deriving DecidableEq, Repr

inductive Outcome where
  | finished
  | eintr
  | eagain
deriving DecidableEq, Repr

inductive Action where
  | start
  | check
  | attempt (outcome : Outcome)
  | guard
  | readEpoch
  | register
  | publish
  | resume
  | event (canRead canWrite isError : Bool)
  | runQueued (token : Nat)
  | call (kind : CancelKind)
  | advance (call : Call)
deriving DecidableEq, Repr

variable (op : OpKind) (fd : Nat)

/-- The wait of the operation is stored in `fd_registry`. -/
def State.stored (s : State) : Bool :=
  (s.fds.slotAt fd op.direction).op.isSome

/-- The reactor is busy with the operation's registration. -/
def State.registering (s : State) : Bool :=
  match s.pc with
  | .register => true
  | .publish _ _ => true
  | _ => false

/-- The callback of the stored wait. -/
def State.wake (s : State) (removed : Option Unit) (ok : Bool) : State :=
  match s.pc with
  | .waiting _ => if removed.isSome then { s with pc := .woken ok } else s
  | _ => s

/-- The cancellation of a token on the reactor thread. -/
def State.cancelToken (s : State) (token : Nat) : State :=
  let cancelled := s.fds.cancel fd op.direction token
  { s with fds := cancelled.1 }.wake cancelled.2.removed false

/-- `event_handle::cancel` on the reactor thread; an invalid handle does
nothing. -/
def State.cancelHandle (s : State) (token : Nat) : State :=
  if token = invalidToken then s else s.cancelToken op fd token

/-- `set_*_handle` and the end of the registration. -/
def State.publish (s : State) (token : Nat) (readyNow : Bool) : State :=
  let published :=
    s.resource.setHandle op.direction token s.cancelEpoch
  let next := { s with
    resource := published.1
    pc := if readyNow then .woken true else .waiting token }
  if published.2 then next else next.cancelHandle op fd token

/-- The steps of the operation. -/
def program (s : State) (a : Action) : Option State :=
  match a, s.pc with
  | .start, .idle => some { s with
      pc := .check, myEpoch := s.opEpoch, swept := false, returned := false
      calls := s.calls.map fun call => { call with after := false } }
  | .start, .done => some { s with
      pc := .check, myEpoch := s.opEpoch, swept := false, returned := false
      calls := s.calls.map fun call => { call with after := false } }
  | .check, .check =>
      some { s with pc := if s.opEpoch = s.myEpoch then .attempt else .done }
  | .attempt outcome, .attempt =>
      some { s with pc := match outcome with
        | .finished => .done
        | .eintr => .check
        | .eagain => .guard }
  | .guard, .guard => some { s with pc := .hop }
  | .readEpoch, .hop => some { s with
      pc := .register, cancelEpoch := s.resource.cancelEpoch op.direction }
  | .register, .register =>
      let registered := s.fds.registerImpl fd (some ()) op.direction
      some { s with
        fds := registered.1
        pc := .publish registered.2.token registered.2.readyNow.isSome }
  | .publish, .publish token readyNow => some (s.publish op fd token readyNow)
  | .resume, .woken ok => some { s with pc := if ok then .recheck else .done }
  | .check, .recheck =>
      some { s with
        pc := if s.opEpoch = s.myEpoch ∧ op.loops then .check else .done }
  | _, _ => none

/-- The reactor delivers an event or runs a queued cancellation. -/
def reactor (s : State) : Action → Option State
  | .event canRead canWrite isError =>
      if s.registering then none
      else
        let taken := s.fds.takeReady fd canRead canWrite
        some ({ s with fds := taken.1 }.wake (taken.2.get op.direction)
          (!isError))
  | .runQueued token =>
      if s.registering ∨ token ∉ s.queued then none
      else some ({ s with queued := s.queued.erase token }.cancelToken op fd token)
  | _ => none

/-- Replace a call in progress by its next stage, or by nothing. -/
def State.advance (s : State) (call : Call) (next : List Call) : State :=
  { s with calls := next ++ s.calls.erase call }

/-- The steps of the cancel calls. -/
def canceller (s : State) : Action → Option State
  | .call kind =>
      let after := kind.addresses op && s.pc != .idle && s.pc != .done
      some { s with calls := ⟨kind, after, .bumpOp⟩ :: s.calls }
  | .advance call =>
      if call ∉ s.calls then none
      else match call.stage with
        | .bumpOp =>
            some { s.advance call [{ call with stage := .bumpFd }] with
              opEpoch :=
                if call.kind.bumpsOp op then FixedWidth.incr 64 s.opEpoch
                else s.opEpoch }
        | .bumpFd =>
            some { s.advance call [{ call with stage := .sweep }] with
              resource :=
                if call.kind.bumpsFd op.direction then
                  s.resource.bumpCancelEpoch op.direction
                else s.resource }
        | .sweep =>
            if call.kind.sweeps op.direction then
              let taken := s.resource.takeHandle op.direction
              some { s.advance call [{ call with stage := .dispatch taken.2 }] with
                resource := taken.1
                swept := s.swept || call.after }
            else some (s.advance call [])
        | .dispatch token =>
            some { s.advance call [] with
              queued := if token = invalidToken then s.queued
                else s.queued ++ [token]
              returned := s.returned || call.after }
  | _ => none

def step (s : State) (a : Action) : Option State :=
  match a with
  | .call _ | .advance _ => canceller op s a
  | .event _ _ _ | .runQueued _ => reactor op fd s a
  | _ => program op fd s a

def system : TransitionSystem State Action where
  start := { resource := { fd } }
  step := step op fd

/-- A handle sweep at this point would miss the operation, and nothing else
would stop it: it is past its epoch check and has not read the cancel epoch, or
it has read the present one and not published its handle; or it has yet to
make its epoch check and the call does not advance that epoch. -/
def State.exposed (s : State) (kind : CancelKind) : Bool :=
  match s.pc with
  | .check => !kind.bumpsOp op
  | .attempt => true
  | .guard => true
  | .hop => true
  | .register => s.resource.cancelEpoch op.direction == s.cancelEpoch
  | .publish _ _ => s.resource.cancelEpoch op.direction == s.cancelEpoch
  | _ => false

/-- No call takes the handle while the operation is exposed; epochs and tokens
do not come round to a value in use. -/
def heedsExposure (s : State) : Action → Bool
  | .register => s.fds.nextToken != invalidToken
  | .advance ⟨kind, _, .bumpOp⟩ =>
      !kind.bumpsOp op || FixedWidth.incr 64 s.opEpoch != s.myEpoch
  | .advance ⟨kind, _, .bumpFd⟩ =>
      !kind.bumpsFd op.direction || !s.registering ||
        FixedWidth.incr 64 (s.resource.cancelEpoch op.direction) != s.cancelEpoch
  | .advance ⟨kind, after, .sweep⟩ => !after || !s.exposed op kind
  | _ => true

/-- A cancellation of the token is queued, or a cancel call in progress holds
the handle and is about to queue it. -/
def Underway (s : State) (token : Nat) : Prop :=
  token ∈ s.queued ∨ ∃ call ∈ s.calls, call.stage = .dispatch token

/-- Once a cancel call made after `try_start` has returned, a stored wait has
its cancellation under way, or its own `set_*_handle` is about to cancel it. -/
structure NotLost (s : State) : Prop where
  waiting : s.returned = true → ∀ token, s.pc = .waiting token →
    s.stored op fd = true → Underway s token
  publishing : s.returned = true → ∀ token readyNow,
    s.pc = .publish token readyNow → s.stored op fd = true →
      s.resource.cancelEpoch op.direction ≠ s.cancelEpoch

/-! ### Invariant -/

/-- The wait is stored under the token the operation knows, from registration
on; once published, the handle is in place or its cancellation under way. -/
def Registered (s : State) : Prop :=
  match s.pc with
  | .publish token readyNow =>
      (readyNow = false → token ≠ invalidToken) ∧
        (s.stored op fd = true → readyNow = false ∧
          (s.fds.slotAt fd op.direction).token = token)
  | .waiting token =>
      token ≠ invalidToken ∧
        (s.stored op fd = true →
          (s.fds.slotAt fd op.direction).token = token ∧
            (s.resource.handle op.direction = token ∨ Underway s token))
  | _ => s.stored op fd = false

/-- What stops the operation after a sweep: an epoch it will find changed, or
the cancellation of its wait. -/
def Protected (s : State) : Prop :=
  match s.pc with
  | .check => s.opEpoch ≠ s.myEpoch
  | .attempt | .guard | .hop => False
  | .register | .publish _ _ =>
      s.resource.cancelEpoch op.direction ≠ s.cancelEpoch
  | .waiting token => s.stored op fd = true → Underway s token
  | _ => True

/-- What holds of a call made after `try_start`. -/
structure CallOk (s : State) (call : Call) : Prop where
  addresses : call.kind.addresses op = true
  bumped : call.stage ≠ .bumpOp → call.kind.bumpsOp op = true →
    s.opEpoch ≠ s.myEpoch
  swept : ∀ token, call.stage = .dispatch token → s.swept = true

structure Inv (s : State) : Prop where
  registered : Registered op fd s
  calls : ∀ call ∈ s.calls, call.after = true → CallOk op s call
  guarded : s.swept = true → Protected op fd s
  loops : s.swept = true → op.loops = true → s.opEpoch ≠ s.myEpoch
  swept : s.returned = true → s.swept = true

variable {op fd}

theorem CallOk.congr {s t : State} {call : Call} (hcall : CallOk op s call)
    (hop : s.opEpoch ≠ s.myEpoch → t.opEpoch ≠ t.myEpoch)
    (hswept : s.swept = true → t.swept = true) : CallOk op t call where
  addresses := hcall.addresses
  bumped := fun hstage hbumps => hop (hcall.bumped hstage hbumps)
  swept := fun token hstage => hswept (hcall.swept token hstage)

theorem start_inv : Inv op fd (system op fd).start where
  registered := by
    cases op <;>
      simp [Registered, system, State.stored, FdRegistry.slotAt,
        FdRegistry.entry, FdRegistry.FdOps.slotFor, OpKind.direction]
  calls := by simp [system]
  guarded := by simp [system]
  loops := by simp [system]
  swept := by simp [system]

theorem Inv.notLost {s : State} (hs : Inv op fd s) : NotLost op fd s := by
  constructor
  · intro hreturned token hpc
    have hguarded := hs.guarded (hs.swept hreturned)
    rwa [Protected, hpc] at hguarded
  · intro hreturned token readyNow hpc _
    have hguarded := hs.guarded (hs.swept hreturned)
    rwa [Protected, hpc] at hguarded

/-! ### Steps that leave the operation where it is -/

theorem Registered.congr {s t : State} (hs : Registered op fd s)
    (hpc : t.pc = s.pc)
    (hstored : t.stored op fd = true → s.stored op fd = true ∧
      (t.fds.slotAt fd op.direction).token =
        (s.fds.slotAt fd op.direction).token)
    (hreach : ∀ token, s.pc = .waiting token → t.stored op fd = true →
      s.resource.handle op.direction = token ∨ Underway s token →
        t.resource.handle op.direction = token ∨ Underway t token) :
    Registered op fd t := by
  have hnone : s.stored op fd = false → t.stored op fd = false := by
    intro hfalse
    by_contra htrue
    rw [Bool.not_eq_false] at htrue
    rw [(hstored htrue).1] at hfalse
    exact absurd hfalse (by decide)
  unfold Registered at hs ⊢
  rw [hpc]
  cases hcase : s.pc with
  | publish token readyNow =>
      simp only [hcase] at hs ⊢
      refine ⟨hs.1, fun htrue => ?_⟩
      obtain ⟨hold, htoken⟩ := hstored htrue
      rw [htoken]
      exact hs.2 hold
  | waiting token =>
      simp only [hcase] at hs ⊢
      refine ⟨hs.1, fun htrue => ?_⟩
      obtain ⟨hold, htoken⟩ := hstored htrue
      rw [htoken]
      exact ⟨(hs.2 hold).1, hreach token hcase htrue (hs.2 hold).2⟩
  | _ =>
      simp only [hcase] at hs ⊢
      exact hnone hs

theorem Protected.congr {s t : State} (hs : Protected op fd s)
    (hpc : t.pc = s.pc)
    (hop : s.opEpoch ≠ s.myEpoch → t.opEpoch ≠ t.myEpoch)
    (hfd : s.registering = true →
      s.resource.cancelEpoch op.direction ≠ s.cancelEpoch →
        t.resource.cancelEpoch op.direction ≠ t.cancelEpoch)
    (hreach : ∀ token, s.pc = .waiting token → t.stored op fd = true →
      s.stored op fd = true ∧ (Underway s token → Underway t token)) :
    Protected op fd t := by
  unfold Protected at hs ⊢
  rw [hpc]
  cases hcase : s.pc with
  | check =>
      simp only [hcase] at hs ⊢
      exact hop hs
  | register =>
      simp only [hcase] at hs ⊢
      exact hfd (by simp [State.registering, hcase]) hs
  | publish token readyNow =>
      simp only [hcase] at hs ⊢
      exact hfd (by simp [State.registering, hcase]) hs
  | waiting token =>
      simp only [hcase] at hs ⊢
      intro htrue
      obtain ⟨hold, hunderway⟩ := hreach token hcase htrue
      exact hunderway (hs hold)
  | attempt | guard | hop => simp only [hcase] at hs
  | _ => trivial

/-! ### The reactor -/

/-- The reactor takes operations out of the registry, never puts one in. -/
theorem Inv.onlyRemoves {s : State} (hs : Inv op fd s) {fds : FdRegistry Unit}
    (honly : FdRegistry.OnlyRemoves s.fds fds) : Inv op fd { s with fds } := by
  have hstored : { s with fds }.stored op fd = true → s.stored op fd = true ∧
      (fds.slotAt fd op.direction).token =
        (s.fds.slotAt fd op.direction).token := by
    intro htrue
    obtain ⟨stored, hop⟩ := Option.isSome_iff_exists.mp htrue
    obtain ⟨hold, htoken⟩ := honly fd op.direction stored hop
    refine ⟨?_, htoken⟩
    rw [State.stored, hold]
    rfl
  exact {
    registered := hs.registered.congr rfl hstored (fun _ _ _ h => h)
    calls := fun call hcall hafter =>
      (hs.calls call hcall hafter).congr id id
    guarded := fun hswept => (hs.guarded hswept).congr rfl id (fun _ => id)
      (fun _ _ htrue => ⟨(hstored htrue).1, id⟩)
    loops := hs.loops
    swept := hs.swept }

/-- An operation called back is no longer stored. -/
theorem Inv.wake {s : State} (hs : Inv op fd s) {removed : Option Unit}
    (ok : Bool) (hremoved : removed.isSome → s.stored op fd = false) :
    Inv op fd (s.wake removed ok) := by
  unfold State.wake
  split
  · split
    · next htaken =>
        exact ⟨hremoved htaken,
          fun call hcall hafter => (hs.calls call hcall hafter).congr id id,
          fun _ => trivial, hs.loops, hs.swept⟩
    · exact hs
  · exact hs

theorem event_inv {s t : State} {canRead canWrite isError : Bool}
    (hs : Inv op fd s)
    (hstep : reactor op fd s (.event canRead canWrite isError) = some t) :
    Inv op fd t := by
  simp only [reactor, Option.ite_none_left_eq_some, Option.some.injEq] at hstep
  obtain ⟨_, rfl⟩ := hstep
  apply Inv.wake
  · exact hs.onlyRemoves
      (FdRegistry.takeReady_onlyRemoves _ fd canRead canWrite).1
  · intro htaken
    have hnone := FdRegistry.takeReady_taken s.fds fd canRead canWrite _ htaken
    rw [Int.toNat_natCast] at hnone
    rw [State.stored, hnone]
    rfl

/-- Cancelling on the reactor thread removes the wait if the token is its
own. -/
theorem Inv.cancelToken {s : State} (hs : Inv op fd s) (token : Nat) :
    Inv op fd (s.cancelToken op fd token) := by
  apply Inv.wake
  · exact hs.onlyRemoves (FdRegistry.cancel_onlyRemoves _ fd _ token).1
  · intro hremoved
    have hnone := FdRegistry.cancel_removed s.fds fd op.direction token hremoved
    rw [Int.toNat_natCast] at hnone
    rw [State.stored, hnone]
    rfl

/-- A stored wait does not survive the cancellation of its own token. -/
theorem slotAt_cancel_own (fds : FdRegistry Unit) {token : Nat}
    (htoken : (fds.slotAt fd op.direction).op.isSome = true →
      (fds.slotAt fd op.direction).token = token) :
    ((fds.cancel fd op.direction token).1.slotAt fd op.direction).op = none := by
  cases hstored : (fds.slotAt fd op.direction).op.isSome with
  | true =>
      have hfd : (0 : Int) ≤ fd := by omega
      have hremoved := fds.cancel_of_token hfd hstored
      rw [Int.toNat_natCast, htoken hstored] at hremoved
      have hgone := fds.cancel_removed fd op.direction token
        (by rw [hremoved]; exact hstored)
      rwa [Int.toNat_natCast] at hgone
  | false =>
      by_contra hsome
      obtain ⟨stored, hop⟩ := Option.ne_none_iff_exists'.mp hsome
      have hold := ((fds.cancel_onlyRemoves fd op.direction token).1 fd
        op.direction stored hop).1
      rw [hold] at hstored
      simp at hstored

/-- A wait that is cancelled by its own token needs no handle any more. -/
theorem cancelOwn_inv {s : State} {token : Nat} (hpc : s.pc = .waiting token)
    (hvalid : token ≠ invalidToken)
    (htoken : s.stored op fd = true →
      (s.fds.slotAt fd op.direction).token = token)
    (hcalls : ∀ call ∈ s.calls, call.after = true → CallOk op s call)
    (hloops : s.swept = true → op.loops = true → s.opEpoch ≠ s.myEpoch)
    (hswept : s.returned = true → s.swept = true) :
    Inv op fd (s.cancelToken op fd token) := by
  have hnone := slotAt_cancel_own s.fds htoken
  have hstored : ∀ t : State,
      t.fds = (s.fds.cancel fd op.direction token).1 →
        t.stored op fd = false := by
    intro t ht
    rw [State.stored, ht, hnone]
    rfl
  apply Inv.wake
  · refine ⟨?_, fun call hcall hafter =>
      (hcalls call hcall hafter).congr id id, ?_, hloops, hswept⟩
    · simp only [Registered, hpc]
      refine ⟨hvalid, fun htrue => ?_⟩
      rw [hstored _ rfl] at htrue
      exact absurd htrue (by decide)
    · intro _
      simp only [Protected, hpc]
      intro htrue
      rw [hstored _ rfl] at htrue
      exact absurd htrue (by decide)
  · exact fun _ => hstored _ rfl

theorem runQueued_inv {s t : State} {token : Nat} (hs : Inv op fd s)
    (hstep : reactor op fd s (.runQueued token) = some t) : Inv op fd t := by
  simp only [reactor, Option.ite_none_left_eq_some, Option.some.injEq] at hstep
  obtain ⟨_, rfl⟩ := hstep
  by_cases hown : s.pc = .waiting token
  · have hregistered := hs.registered
    simp only [Registered, hown] at hregistered
    exact cancelOwn_inv hown hregistered.1
      (fun hstored => (hregistered.2 hstored).1)
      (fun call hcall hafter => (hs.calls call hcall hafter).congr id id)
      hs.loops hs.swept
  · -- Another token leaves the queue, so ours stays under way.
    have hkept : ∀ mine, s.pc = .waiting mine → Underway s mine →
        Underway { s with queued := s.queued.erase token } mine := by
      intro mine hpc hunderway
      have hne : mine ≠ token := by
        rintro rfl
        exact hown hpc
      exact hunderway.imp_left (List.mem_erase_of_ne hne).mpr
    apply Inv.cancelToken
    exact {
      registered := hs.registered.congr rfl (fun htrue => ⟨htrue, rfl⟩)
        (fun mine hpc _ h => h.imp_right (hkept mine hpc))
      calls := fun call hcall hafter =>
        (hs.calls call hcall hafter).congr id id
      guarded := fun hswept => (hs.guarded hswept).congr rfl id (fun _ => id)
        (fun mine hpc htrue => ⟨htrue, hkept mine hpc⟩)
      loops := hs.loops
      swept := hs.swept }

/-! ### The operation -/

/-- The operation moves between points at which no wait is stored. -/
theorem Inv.move {s : State} (hs : Inv op fd s) {pc : Pc}
    (hregistered : Registered op fd { s with pc := pc })
    (hguarded : s.swept = true → Protected op fd { s with pc := pc }) :
    Inv op fd { s with pc := pc } :=
  ⟨hregistered, fun call hcall hafter =>
    (hs.calls call hcall hafter).congr id id, hguarded, hs.loops, hs.swept⟩

/-- A call in progress when the operation starts is not after its start. -/
theorem startCall_inv {s : State} (hs : s.stored op fd = false) :
    Inv op fd { s with
      pc := .check, myEpoch := s.opEpoch, swept := false, returned := false
      calls := s.calls.map fun call => { call with after := false } } where
  registered := hs
  calls := by
    intro call hcall hafter
    obtain ⟨old, _, rfl⟩ := List.mem_map.mp hcall
    simp at hafter
  guarded := by simp
  loops := by simp
  swept := by simp

theorem register_inv {s : State} (hs : Inv op fd s) (hpc : s.pc = .register)
    (htoken : s.fds.nextToken ≠ invalidToken) :
    Inv op fd { s with
      fds := (s.fds.registerImpl fd (some ()) op.direction).1
      pc := .publish (s.fds.registerImpl fd (some ()) op.direction).2.token
        (s.fds.registerImpl fd (some ()) op.direction).2.readyNow.isSome } := by
  have hfd : (0 : Int) ≤ fd := by omega
  have hregistered := hs.registered
  simp only [Registered, hpc] at hregistered
  refine ⟨?_, fun call hcall hafter =>
    (hs.calls call hcall hafter).congr id id, ?_, hs.loops, hs.swept⟩
  · rw [FdRegistry.registerImpl_readyNow _ hfd, Int.toNat_natCast]
    cases hready : (s.fds.slotAt fd op.direction).ready with
    | true =>
        refine ⟨by simp, fun htrue => ?_⟩
        have honly := FdRegistry.registerImpl_ready_onlyRemoves s.fds hfd ()
          hready
        have hkept := (hs.onlyRemoves honly.1).registered
        simp only [Registered, hpc] at hkept
        rw [State.stored] at htrue hkept
        rw [hkept] at htrue
        exact absurd htrue (by decide)
    | false =>
        obtain ⟨hresult, hslot⟩ := FdRegistry.registerImpl_slotAt s.fds hfd ()
          op.direction hready
        rw [Int.toNat_natCast] at hslot
        refine ⟨fun _ => hresult ▸ htoken, fun _ => ⟨rfl, ?_⟩⟩
        rw [hslot, hresult]
        rfl
  · intro hswept
    have hguarded := hs.guarded hswept
    rwa [Protected, hpc] at hguarded

/-- An accepted handle is in place; a rejected one is cancelled at once. -/
theorem publish_inv {s : State} {token : Nat} {readyNow : Bool}
    (hs : Inv op fd s) (hpc : s.pc = .publish token readyNow) :
    Inv op fd (s.publish op fd token readyNow) := by
  have hregistered := hs.registered
  simp only [Registered, hpc] at hregistered
  have hunstored : readyNow = true → s.stored op fd = false := by
    intro hready
    by_contra htrue
    rw [Bool.not_eq_false] at htrue
    rw [(hregistered.2 htrue).1] at hready
    exact absurd hready (by decide)
  have hcalls : ∀ call ∈ s.calls, call.after = true → CallOk op s call :=
    hs.calls
  unfold State.publish FdResource.setHandle
  by_cases haccept : !s.resource.closing ∧ 0 ≤ s.resource.fd ∧
      s.resource.cancelEpoch op.direction = s.cancelEpoch
  · rw [if_pos haccept]
    simp only [↓reduceIte]
    -- A sweep so far would have left the cancel epoch changed.
    have hunswept : s.swept = true → False := by
      intro hswept
      have hguarded := hs.guarded hswept
      rw [Protected, hpc] at hguarded
      exact hguarded haccept.2.2
    refine ⟨?_, fun call hcall hafter =>
      (hcalls call hcall hafter).congr id id,
      fun hswept => (hunswept hswept).elim, hs.loops, hs.swept⟩
    cases hready : readyNow with
    | true => exact hunstored hready
    | false =>
        refine ⟨hregistered.1 hready, fun htrue => ?_⟩
        exact ⟨(hregistered.2 htrue).2,
          Or.inl (FdResource.handle_putHandle_self _ _ _)⟩
  · rw [if_neg haccept]
    simp only [Bool.false_eq_true, ↓reduceIte]
    cases hready : readyNow with
    | true =>
        have hnext : Inv op fd { s with pc := .woken true } :=
          hs.move (hunstored hready) (fun _ => trivial)
        simp only [↓reduceIte, State.cancelHandle]
        split
        · exact hnext
        · exact hnext.cancelToken token
    | false =>
        have hvalid := hregistered.1 hready
        simp only [Bool.false_eq_true, ↓reduceIte, State.cancelHandle, hvalid]
        exact cancelOwn_inv rfl hvalid (fun htrue => (hregistered.2 htrue).2)
          (fun call hcall hafter => (hcalls call hcall hafter).congr id id)
          hs.loops hs.swept

theorem program_inv {s t : State} {a : Action} (hs : Inv op fd s)
    (hheeds : heedsExposure op s a = true)
    (hstep : program op fd s a = some t) : Inv op fd t := by
  have hregistered := hs.registered
  have hguarded := hs.guarded
  unfold program at hstep
  split at hstep
  · next hpc =>
      obtain rfl := Option.some.inj hstep
      simp only [Registered, hpc] at hregistered
      exact startCall_inv hregistered
  · next hpc =>
      obtain rfl := Option.some.inj hstep
      simp only [Registered, hpc] at hregistered
      exact startCall_inv hregistered
  · next hpc =>
      obtain rfl := Option.some.inj hstep
      simp only [Registered, Protected, hpc] at hregistered hguarded
      apply hs.move
      · split <;> exact hregistered
      · intro hswept
        rw [if_neg (hguarded hswept)]
        trivial
  · next outcome hpc =>
      obtain rfl := Option.some.inj hstep
      simp only [Registered, Protected, hpc] at hregistered hguarded
      apply hs.move
      · cases outcome <;> exact hregistered
      · exact fun hswept => (hguarded hswept).elim
  · next hpc =>
      obtain rfl := Option.some.inj hstep
      simp only [Registered, Protected, hpc] at hregistered hguarded
      exact hs.move hregistered (fun hswept => (hguarded hswept).elim)
  · next hpc =>
      obtain rfl := Option.some.inj hstep
      simp only [Registered, Protected, hpc] at hregistered hguarded
      exact ⟨hregistered, fun call hcall hafter =>
        (hs.calls call hcall hafter).congr id id,
        fun hswept => (hguarded hswept).elim, hs.loops, hs.swept⟩
  · next hpc =>
      obtain rfl := Option.some.inj hstep
      exact register_inv hs hpc (by simpa [heedsExposure] using hheeds)
  · next token readyNow hpc =>
      obtain rfl := Option.some.inj hstep
      exact publish_inv hs hpc
  · next ok hpc =>
      obtain rfl := Option.some.inj hstep
      simp only [Registered, hpc] at hregistered
      apply hs.move
      · split <;> exact hregistered
      · intro _
        split <;> trivial
  · next hpc =>
      obtain rfl := Option.some.inj hstep
      simp only [Registered, hpc] at hregistered
      apply hs.move
      · split <;> exact hregistered
      · intro hswept
        split
        · next hagain => exact hs.loops hswept hagain.2
        · trivial
  · simp at hstep

/-! ### The cancel calls -/

theorem CancelKind.bumpsOp_of_addresses {kind : CancelKind}
    (haddresses : kind.addresses op = true) (hloops : op.loops = true) :
    kind.bumpsOp op = true := by
  cases kind <;> cases op <;>
    simp_all [CancelKind.addresses, CancelKind.bumpsOp, OpKind.loops]

/-- A call that moves on keeps the cancellations of the others under way. -/
theorem Underway.advance {s t : State} {token : Nat} {call : Call}
    {next : List Call} (hs : Underway s token)
    (hstage : call.stage ≠ .dispatch token)
    (hqueued : t.queued = s.queued)
    (hcalls : t.calls = next ++ s.calls.erase call) : Underway t token := by
  rcases hs with hmem | ⟨other, hother, hdispatch⟩
  · exact Or.inl (hqueued ▸ hmem)
  · have hne : other ≠ call := by
      rintro rfl
      exact hstage hdispatch
    refine Or.inr ⟨other, ?_, hdispatch⟩
    rw [hcalls]
    exact List.mem_append_right _ ((List.mem_erase_of_ne hne).mpr hother)

/-- A call before its sweep moves on, perhaps advancing an epoch. -/
theorem Inv.bump {s t : State} (hs : Inv op fd s) {call : Call}
    {next : List Call} (hcall : call ∈ s.calls)
    (hstage : ∀ token, call.stage ≠ .dispatch token)
    (hnext : ∀ new ∈ next, new.kind = call.kind ∧ new.after = call.after ∧
      ∀ token, new.stage ≠ .dispatch token)
    (hpc : t.pc = s.pc) (hfds : t.fds = s.fds) (hqueued : t.queued = s.queued)
    (hcalls : t.calls = next ++ s.calls.erase call)
    (hswept : t.swept = s.swept) (hreturned : t.returned = s.returned)
    (hhandle : t.resource.handle op.direction =
      s.resource.handle op.direction)
    (hop : s.opEpoch ≠ s.myEpoch → t.opEpoch ≠ t.myEpoch)
    (hbumped : ∀ new ∈ next, new.after = true → new.stage ≠ .bumpOp →
      new.kind.bumpsOp op = true → t.opEpoch ≠ t.myEpoch)
    (hfd : s.registering = true →
      s.resource.cancelEpoch op.direction ≠ s.cancelEpoch →
        t.resource.cancelEpoch op.direction ≠ t.cancelEpoch) :
    Inv op fd t := by
  have hstored : t.stored op fd = s.stored op fd := by
    rw [State.stored, State.stored, hfds]
  have hunderway : ∀ token, Underway s token → Underway t token :=
    fun token h => h.advance (hstage token) hqueued hcalls
  exact {
    registered := by
      refine hs.registered.congr hpc (fun htrue => ?_) (fun token _ _ h => ?_)
      · rw [← hstored, hfds]
        exact ⟨htrue, rfl⟩
      · rw [hhandle]
        exact h.imp_right (hunderway token)
    calls := by
      intro new hnew hafter
      rw [hcalls] at hnew
      rcases List.mem_append.mp hnew with hnew | hold
      · obtain ⟨hkind, hsame, hquiet⟩ := hnext new hnew
        refine ⟨?_, hbumped new hnew hafter, fun token h => absurd h (hquiet token)⟩
        rw [hkind]
        exact (hs.calls call hcall (hsame ▸ hafter)).addresses
      · exact (hs.calls new (List.mem_of_mem_erase hold) hafter).congr hop
          (fun h => hswept ▸ h)
    guarded := by
      intro hsw
      refine (hs.guarded (hswept ▸ hsw)).congr hpc hop hfd ?_
      intro token _ htrue
      exact ⟨hstored ▸ htrue, hunderway token⟩
    loops := fun hsw hloops => hop (hs.loops (hswept ▸ hsw) hloops)
    swept := fun hret => hswept ▸ hs.swept (hreturned ▸ hret) }

theorem call_inv {s : State} (hs : Inv op fd s) {call : Call}
    (haddresses : call.after = true → call.kind.addresses op = true)
    (hstage : call.stage = .bumpOp) :
    Inv op fd { s with calls := call :: s.calls } := by
  have hunderway : ∀ token, Underway s token →
      Underway { s with calls := call :: s.calls } token := by
    intro token h
    refine h.imp_right ?_
    rintro ⟨other, hother, hdispatch⟩
    exact ⟨other, List.mem_cons_of_mem _ hother, hdispatch⟩
  exact {
    registered := hs.registered.congr rfl (fun htrue => ⟨htrue, rfl⟩)
      (fun token _ _ h => h.imp_right (hunderway token))
    calls := by
      intro new hnew hafter
      rcases List.mem_cons.mp hnew with rfl | hold
      · exact ⟨haddresses hafter, fun h => absurd hstage h,
          fun token h => by rw [hstage] at h; simp at h⟩
      · exact (hs.calls new hold hafter).congr id id
    guarded := fun hswept => (hs.guarded hswept).congr rfl id (fun _ => id)
      (fun token _ htrue => ⟨htrue, hunderway token⟩)
    loops := hs.loops
    swept := hs.swept }

theorem bumpOp_inv {s : State} (hs : Inv op fd s) {call : Call}
    (hcall : call ∈ s.calls) (hstage : call.stage = .bumpOp)
    (hheeds : heedsExposure op s (.advance call) = true) :
    Inv op fd { s.advance call [{ call with stage := .bumpFd }] with
      opEpoch := if call.kind.bumpsOp op then FixedWidth.incr 64 s.opEpoch
        else s.opEpoch } := by
  obtain ⟨kind, after, stage⟩ := call
  simp only at hstage
  subst hstage
  have hwrap : kind.bumpsOp op = true →
      FixedWidth.incr 64 s.opEpoch ≠ s.myEpoch := by
    intro hbumps
    simpa [heedsExposure, hbumps] using hheeds
  refine hs.bump hcall (by simp) ?_ rfl rfl rfl rfl rfl rfl rfl ?_ ?_
    (fun _ => id)
  · intro new hnew
    rw [List.mem_singleton.mp hnew]
    exact ⟨rfl, rfl, by simp⟩
  · intro hne
    simp only
    split
    · next hbumps => exact hwrap hbumps
    · exact hne
  · intro new hnew _ _ hbumps
    rw [List.mem_singleton.mp hnew] at hbumps
    simp only [hbumps, ↓reduceIte]
    exact hwrap hbumps

theorem bumpFd_inv {s : State} (hs : Inv op fd s) {call : Call}
    (hcall : call ∈ s.calls) (hstage : call.stage = .bumpFd)
    (hheeds : heedsExposure op s (.advance call) = true) :
    Inv op fd { s.advance call [{ call with stage := .sweep }] with
      resource := if call.kind.bumpsFd op.direction then
          s.resource.bumpCancelEpoch op.direction
        else s.resource } := by
  obtain ⟨kind, after, stage⟩ := call
  simp only at hstage
  subst hstage
  refine hs.bump hcall (by simp) ?_ rfl rfl rfl rfl rfl rfl ?_ id ?_ ?_
  · intro new hnew
    rw [List.mem_singleton.mp hnew]
    exact ⟨rfl, rfl, by simp⟩
  · simp only
    split <;> simp
  · intro new hnew hafter _ hbumps
    rw [List.mem_singleton.mp hnew] at hafter hbumps
    exact (hs.calls _ hcall hafter).bumped (by simp) hbumps
  · intro hregistering hne
    simp only
    split
    · next hbumps =>
        rw [FdResource.cancelEpoch_bumpCancelEpoch]
        simpa [heedsExposure, hbumps, hregistering, State.advance] using hheeds
    · exact hne

/-- A sweep that is not exposed finds the operation stopped: by its epoch
check, by the rejection of its handle, or by the handle the sweep takes. -/
theorem sweep_inv {s : State} (hs : Inv op fd s) {call : Call}
    (hcall : call ∈ s.calls) (hstage : call.stage = .sweep)
    (hheeds : heedsExposure op s (.advance call) = true) :
    Inv op fd { s.advance call [{ call with
        stage := .dispatch (s.resource.handle op.direction) }] with
      resource := s.resource.putHandle invalidToken op.direction
      swept := s.swept || call.after } := by
  obtain ⟨kind, after, stage⟩ := call
  simp only at hstage
  subst hstage
  have hok := hs.calls _ hcall
  have hreach : ∀ {t : State} {token : Nat},
      s.resource.handle op.direction = token ∨ Underway s token →
      t.queued = s.queued →
      t.calls = [⟨kind, after, .dispatch (s.resource.handle op.direction)⟩] ++
        s.calls.erase ⟨kind, after, .sweep⟩ → Underway t token := by
    rintro t token (rfl | hunderway) hqueued hcalls
    · refine Or.inr ⟨⟨kind, after, _⟩, ?_, rfl⟩
      rw [hcalls]
      exact List.mem_append_left _ (List.mem_singleton.mpr rfl)
    · exact hunderway.advance (by simp) hqueued hcalls
  exact {
    registered := hs.registered.congr rfl (fun htrue => ⟨htrue, rfl⟩)
      (fun _ _ _ h => Or.inr (hreach h rfl rfl))
    calls := by
      intro new hnew hafter
      rcases List.mem_append.mp hnew with hnew | hold
      · rw [List.mem_singleton.mp hnew] at hafter ⊢
        have hafter : after = true := hafter
        refine ⟨(hok hafter).addresses, fun _ => (hok hafter).bumped (by simp),
          fun _ _ => ?_⟩
        simp [hafter]
      · refine (hs.calls new (List.mem_of_mem_erase hold) hafter).congr id ?_
        intro hswept
        simp [hswept]
    guarded := by
      intro hswept
      by_cases hbefore : s.swept = true
      · refine (hs.guarded hbefore).congr rfl id ?_ ?_
        · intro _ hne
          simp only [FdResource.cancelEpoch_putHandle]
          exact hne
        · exact fun _ _ htrue => ⟨htrue, fun h => hreach (Or.inr h) rfl rfl⟩
      · have hafter : after = true := by
          simpa [hbefore] using hswept
        have hregistered := hs.registered
        simp only [heedsExposure, hafter, Bool.not_true, Bool.false_or,
          Bool.not_eq_true', State.exposed] at hheeds
        unfold Registered at hregistered
        unfold Protected
        cases hpc : s.pc with
        | check =>
            simp only [hpc, Bool.not_eq_false'] at hheeds
            simp only [State.advance, hpc]
            exact (hok hafter).bumped (by simp) hheeds
        | attempt | guard | hop => simp [hpc] at hheeds
        | register | publish _ _ =>
            simp only [hpc, beq_eq_false_iff_ne] at hheeds
            simp only [State.advance, hpc, FdResource.cancelEpoch_putHandle]
            exact hheeds
        | waiting token =>
            simp only [hpc] at hregistered
            simp only [State.advance, hpc]
            exact fun htrue => hreach (hregistered.2 htrue).2 rfl rfl
        | _ => simp [State.advance, hpc]
    loops := by
      intro hswept hloops
      by_cases hbefore : s.swept = true
      · exact hs.loops hbefore hloops
      · have hafter : after = true := by
          simpa [hbefore] using hswept
        exact (hok hafter).bumped (by simp)
          (CancelKind.bumpsOp_of_addresses (hok hafter).addresses hloops)
    swept := by
      intro hreturned
      simp [hs.swept hreturned] }

theorem dispatch_inv {s : State} (hs : Inv op fd s) {call : Call} {token : Nat}
    (hcall : call ∈ s.calls) (hstage : call.stage = .dispatch token) :
    Inv op fd { s.advance call [] with
      queued := if token = invalidToken then s.queued else s.queued ++ [token]
      returned := s.returned || call.after } := by
  have hreach : ∀ mine, s.pc = .waiting mine → Underway s mine →
      Underway { s.advance call [] with
        queued := if token = invalidToken then s.queued else s.queued ++ [token]
        returned := s.returned || call.after } mine := by
    intro mine hpc hunderway
    have hregistered := hs.registered
    simp only [Registered, hpc] at hregistered
    rcases hunderway with hqueued | ⟨other, hother, hdispatch⟩
    · left
      simp only
      split
      · exact hqueued
      · exact List.mem_append_left _ hqueued
    · by_cases heq : other = call
      · subst heq
        rw [hstage, Stage.dispatch.injEq] at hdispatch
        subst hdispatch
        left
        simp [hregistered.1]
      · exact Or.inr ⟨other, (List.mem_erase_of_ne heq).mpr hother, hdispatch⟩
  exact {
    registered := hs.registered.congr rfl (fun htrue => ⟨htrue, rfl⟩)
      (fun mine hpc _ h => h.imp_right (hreach mine hpc))
    calls := fun new hnew hafter =>
      (hs.calls new (List.mem_of_mem_erase hnew) hafter).congr id id
    guarded := fun hswept => (hs.guarded hswept).congr rfl id (fun _ => id)
      (fun mine hpc htrue => ⟨htrue, hreach mine hpc⟩)
    loops := hs.loops
    swept := by
      intro hreturned
      rcases Bool.or_eq_true_iff.mp hreturned with hbefore | hafter
      · exact hs.swept hbefore
      · exact (hs.calls call hcall hafter).swept token hstage }

theorem canceller_inv {s t : State} {a : Action} (hs : Inv op fd s)
    (hheeds : heedsExposure op s a = true)
    (hstep : canceller op s a = some t) : Inv op fd t := by
  unfold canceller at hstep
  split at hstep
  · next kind =>
      obtain rfl := Option.some.inj hstep
      refine call_inv hs ?_ rfl
      intro hafter
      simp only [Bool.and_eq_true] at hafter
      exact hafter.1.1
  · next call =>
      rw [Option.ite_none_left_eq_some, not_not] at hstep
      obtain ⟨hcall, hstep⟩ := hstep
      split at hstep
      · next hstage =>
          obtain rfl := Option.some.inj hstep
          exact bumpOp_inv hs hcall hstage hheeds
      · next hstage =>
          obtain rfl := Option.some.inj hstep
          exact bumpFd_inv hs hcall hstage hheeds
      · next hstage =>
          split at hstep
          · obtain rfl := Option.some.inj hstep
            exact sweep_inv hs hcall hstage hheeds
          · obtain rfl := Option.some.inj hstep
            refine hs.bump hcall (by simp [hstage]) (by simp) rfl rfl rfl rfl
              rfl rfl rfl id (by simp) (fun _ => id)
      · next token hstage =>
          obtain rfl := Option.some.inj hstep
          exact dispatch_inv hs hcall hstage
  · simp at hstep

theorem step_inv {s t : State} {a : Action} (hs : Inv op fd s)
    (hheeds : heedsExposure op s a = true) (hstep : step op fd s a = some t) :
    Inv op fd t := by
  cases a with
  | call kind => exact canceller_inv hs hheeds hstep
  | advance call => exact canceller_inv hs hheeds hstep
  | event canRead canWrite isError => exact event_inv hs hstep
  | runQueued token => exact runQueued_inv hs hstep
  | _ => exact program_inv hs hheeds hstep

/-- In every run whose cancel calls sweep the handle only while the operation
is not exposed, no cancellation is lost. -/
theorem notLost_of_heedsExposure (op : OpKind) (fd : Nat) {s : State}
    (hs : (system op fd).ReachableUnder
      (fun s a => heedsExposure op s a = true) s) : NotLost op fd s := by
  have hinv : Inv op fd s := hs.invariant start_inv
    (fun _ _ _ hinv hheeds hstep => step_inv hinv hheeds hstep)
  exact hinv.notLost

/-- `cancel_read` is called while the read waits. -/
def cancelReadWhileWaiting : List Action :=
  [.start, .check, .attempt .eagain, .guard, .readEpoch, .register, .publish,
    .call .cancelRead, .advance ⟨.cancelRead, true, .bumpOp⟩,
    .advance ⟨.cancelRead, true, .bumpFd⟩, .advance ⟨.cancelRead, true, .sweep⟩,
    .advance ⟨.cancelRead, true, .dispatch 1⟩]

theorem notLost_cancelReadWhileWaiting :
    ∃ s, s.returned = true ∧ s.pc = .waiting 1 ∧ s.stored .read 3 = true ∧
      NotLost .read 3 s := by
  obtain ⟨s, hs, hend⟩ := TransitionSystem.exists_reachableUnder_of_execUnder
    (system .read 3) (fun s a => heedsExposure .read s a = true)
    cancelReadWhileWaiting
    (fun s => s.returned && s.pc == .waiting 1 && s.stored .read 3) (by decide)
  simp only [Bool.and_eq_true, beq_iff_eq] at hend
  exact ⟨s, hend.1.1, hend.1.2, hend.2, notLost_of_heedsExposure .read 3 hs⟩

/-- `cancel` runs while the read is between its epoch check and its wait: the
operation does not look at its epoch again, and the cancel epoch has not
changed. -/
def cancelBeforeWait : List Action :=
  [.start, .check, .call .cancel, .advance ⟨.cancel, true, .bumpOp⟩,
    .advance ⟨.cancel, true, .bumpFd⟩, .advance ⟨.cancel, true, .sweep⟩,
    .advance ⟨.cancel, true, .dispatch 0⟩, .attempt .eagain, .guard, .readEpoch,
    .register, .publish]

theorem lost_cancelBeforeWait :
    ¬ ∀ (op : OpKind) (fd : Nat) (s : State),
      (system op fd).Reachable s → NotLost op fd s := by
  intro hall
  obtain ⟨s, hs, hend⟩ := TransitionSystem.exists_reachable_of_exec
    (system .read 3) cancelBeforeWait
    (fun s => s.returned && s.pc == .waiting 1 && s.stored .read 3 &&
      s.queued == [] && s.calls == []) (by decide)
  simp only [Bool.and_eq_true, beq_iff_eq] at hend
  have hunderway := (hall .read 3 s hs).waiting hend.1.1.1.1 1 hend.1.1.1.2
    hend.1.1.2
  rcases hunderway with hqueued | ⟨call, hcall, _⟩
  · simp [hend.1.2] at hqueued
  · simp [hend.2] at hcall

end SocketCancel

end Iocoro
