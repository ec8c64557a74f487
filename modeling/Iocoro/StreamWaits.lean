/-
The waits of a stream socket.  Reads, writes and connects of any number of threads each
pass through their `op_state`, so at most one of each kind waits; a write and a connect
wait in the same slot of the registry, and only the connection state keeps them apart.
`close()` stores `disconnected` before it takes the resource away, and a connect that
looks in between finds a write that has not ended.
-/
import Mathlib.Data.BitVec
import Iocoro.FdRegistry
import Iocoro.StreamConnect
import Iocoro.TransitionSystem

namespace Iocoro

namespace StreamWaits

open StreamConnect (ConnState)

/-- The operations that have an `op_state`. -/
inductive Op where
  | read
  | write
  | connect
deriving DecidableEq, Repr

/-- The direction of its waits; a connect waits for writability. -/
def Op.kind : Op → FdEventKind
  | .read => .read
  | .write | .connect => .write

structure OpState where
  epoch : BitVec 64 := 0
  active : Bool := false
deriving DecidableEq, Repr

/-- The local variables `res` and `my_epoch`. -/
structure Held where
  res : Nat
  epoch : BitVec 64
deriving DecidableEq, Repr

/-- What an operation gives: a number of bytes, which is zero for a connect, or an
error. -/
inductive Result where
  | ok (n : Nat)
  | notConnected
  | brokenPipe
  | failed (ec : ErrorCode)
deriving DecidableEq, Repr

/-- What an operation gives that was not started. -/
def Result.refusal : Result → Bool
  | .notConnected | .brokenPipe | .ok 0 => true
  | .failed ec => decide (ec = .notOpen ∨ ec = .operationAborted ∨ ec = .busy ∨
      ec = .alreadyConnected)
  | _ => false

/-- What follows a check of the epoch and of `closing()`: the system call, the next
round of the loop, the look at `SO_ERROR`, or the store of `connected`. -/
inductive After where
  | invoke
  | again
  | soError
  | commit
deriving DecidableEq, Repr

/-- Where an operation stands.  `waitGuard` to `woken` is `wait_ready_impl`; `store` is
a store of `state_` with the result that is returned after it, and `finish` the scope
guard. -/
inductive Pc where
  | acquire
  | checkClosing (res : Nat)
  | guard (res : Nat)
  | lock (res : Nat)
  | loadState (res : Nat)
  | loadShutdown (res : Nat)
  | tryStart (res : Nat)
  | loadEpoch (res : Nat)
  | storeConnecting (held : Held)
  | leave (held : Held)
  | checkEpoch (held : Held) (next : After)
  | recheckClosing (held : Held) (next : After)
  | invoke (held : Held)
  | waitGuard (held : Held)
  | register (held : Held)
  | waiting (held : Held)
  | woken (held : Held) (ec : ErrorCode)
  | soError (held : Held)
  | store (held : Held) (state : ConnState) (result : Result)
  | finish (result : Result)
  | returned (result : Result)
deriving DecidableEq, Repr

/-- A call of `async_read_some`, `async_write_some` or `async_connect`; `empty` is
`buffer.empty()`.  `starts` and `finishes` count its successful `try_start` and its
`finish`. -/
structure Call where
  op : Op
  empty : Bool := false
  pc : Pc := .acquire
  starts : Nat := 0
  finishes : Nat := 0
deriving DecidableEq, Repr

/-- It is between its `try_start` and its `finish`. -/
def Call.inside (c : Call) : Bool :=
  decide (c.finishes < c.starts)

/-- The socket.  The number of a resource stands for its descriptor, which is open for
as long as a call holds the resource.  `mtx` is the call in the section under `mtx_`,
and `replaced` are the calls whose wait a registration has replaced. -/
structure Shared where
  res : Option Nat := none
  made : Nat := 0
  closing : List Nat := []
  connState : ConnState := .disconnected
  shutdownRead : Bool := false
  shutdownWrite : Bool := false
  ops : Op → OpState := fun _ => {}
  mtx : Option Nat := none
  registry : FdRegistry Nat := {}
  replaced : List Nat := []

/-- The check of `make_operation_guard`. -/
def Shared.guards (s : Shared) (res : Nat) : Bool :=
  decide (s.res = some res) && decide (res ∉ s.closing)

/-- What a step of a call does to the socket; `leave` clears the shutdown flags and
leaves the lock. -/
inductive Effect where
  | none
  | lock
  | unlock
  | leave
  | start
  | store (state : ConnState)
  | register (res : Nat)
  | finish
deriving DecidableEq, Repr

/-- A step that touches no more than the lock and the shutdown flags. -/
def Effect.quiet : Effect → Bool
  | .none | .lock | .unlock | .leave => true
  | _ => false

/-- Where a passed check leads. -/
def After.pc (held : Held) : After → Pc
  | .invoke => .invoke held
  | .again => .checkEpoch held .invoke
  | .soError => .soError held
  | .commit => .store held .connected (.ok 0)

/-- Where a failure after the start leads. -/
def Call.fail (c : Call) (held : Held) (result : Result) : Pc :=
  if c.op = .connect then .store held .disconnected result else .finish result

/-- Where the end of a wait leads. -/
def Call.afterWait (c : Call) (held : Held) (ec : ErrorCode) : Pc :=
  match c.op with
  | .read =>
      if ec = .none then .checkEpoch held .again
      else if ec = .eof then .finish (.ok 0)
      else .finish (.failed ec)
  | .write =>
      if ec = .none then .checkEpoch held .again else .finish (.failed ec)
  | .connect =>
      if ec ≠ .none ∧ ec ≠ .eof ∧ ec ≠ .connectionReset then
        .store held .disconnected (.failed ec)
      else .checkEpoch held .soError

/-- The steps of call `i` between its system calls and its waits: what it does to the
socket, and where it goes. -/
def callStep (s : Shared) (i : Nat) (c : Call) : Option (Effect × Pc) :=
  match c.pc with
  | .acquire =>
      match s.res with
      | .none => some (.none, .returned (.failed .notOpen))
      | .some res =>
          some (.none, if c.op = .connect then .checkClosing res else .guard res)
  | .checkClosing res =>
      some (.none,
        if res ∈ s.closing then .returned (.failed .operationAborted) else .guard res)
  | .guard res =>
      some (.none,
        if s.guards res then
          if c.op = .connect then .lock res else .loadState res
        else .returned (.failed .operationAborted))
  | .lock res => if s.mtx.isNone then some (.lock, .loadState res) else .none
  | .loadState res =>
      match c.op, s.connState with
      | .connect, .connecting => some (.unlock, .returned (.failed .busy))
      | .connect, .connected => some (.unlock, .returned (.failed .alreadyConnected))
      | .connect, .disconnected => some (.none, .tryStart res)
      | _, .connected => some (.none, .loadShutdown res)
      | _, _ => some (.none, .returned .notConnected)
  | .loadShutdown res =>
      match c.op with
      | .read =>
          some (.none, if s.shutdownRead then .returned (.ok 0) else .tryStart res)
      | _ =>
          some (.none, if s.shutdownWrite then .returned .brokenPipe else .tryStart res)
  | .tryStart res =>
      if (s.ops c.op).active then
        some (if c.op = .connect then .unlock else .none, .returned (.failed .busy))
      else some (.start, .loadEpoch res)
  | .loadEpoch res =>
      let held : Held := ⟨res, (s.ops c.op).epoch⟩
      some (.none,
        if c.op = .connect then .storeConnecting held
        else if c.empty then .finish (.ok 0)
        else .checkEpoch held .invoke)
  | .storeConnecting held => some (.store .connecting, .leave held)
  | .leave held => some (.leave, .checkEpoch held .invoke)
  | .checkEpoch held next =>
      some (.none,
        if (s.ops c.op).epoch = held.epoch then .recheckClosing held next
        else c.fail held (.failed .operationAborted))
  | .recheckClosing held next =>
      some (.none,
        if held.res ∈ s.closing then c.fail held (.failed .operationAborted)
        else next.pc held)
  | .waitGuard held =>
      some (.none,
        if s.guards held.res then .register held
        else c.fail held
          (.failed (if held.res ∈ s.closing then .operationAborted else .notOpen)))
  | .register held =>
      let result := (s.registry.registerImpl held.res (some i) c.op.kind).2
      some (.register held.res,
        if result.readyNow.isSome then .woken held .none else .waiting held)
  | .woken held ec =>
      some (.none, c.afterWait held
        (if ec = .none ∧ held.res ∈ s.closing then .operationAborted else ec))
  | .store _ state result => some (.store state, .finish result)
  | .finish result => some (.finish, .returned result)
  | .invoke _ | .waiting _ | .soError _ | .returned _ => .none

/-- What `::read`, `::send` or `::connect` answers.  `wouldBlock` is EAGAIN, and for a
connect also EINPROGRESS and EALREADY; EISCONN is as good as success. -/
inductive Answer where
  | done (n : Nat)
  | interrupted
  | wouldBlock
  | failed (errno : Nat)
deriving DecidableEq, Repr

def Call.afterInvoke (c : Call) (held : Held) : Answer → Pc
  | .done n =>
      if c.op = .connect then .store held .connected (.ok 0) else .finish (.ok n)
  | .interrupted => .checkEpoch held .invoke
  | .wouldBlock => .waitGuard held
  | .failed errno => c.fail held (.failed (.system errno))

/-- `errno` is zero where neither `getsockopt` nor `SO_ERROR` reports an error. -/
def afterSoError (held : Held) (errno : Nat) : Pc :=
  if errno = 0 then .checkEpoch held .commit
  else .store held .disconnected (.failed (.system errno))

def Shared.setActive (s : Shared) (op : Op) (active : Bool) : Shared :=
  { s with ops := Function.update s.ops op { s.ops op with active := active } }

/-- The registration of the wait of call `i`. -/
def Shared.register (s : Shared) (i : Nat) (c : Call) (res : Nat) :
    FdRegistry Nat × FdRegistry.RegisterResult Nat :=
  s.registry.registerImpl res (some i) c.op.kind

def Shared.apply (s : Shared) (i : Nat) (c : Call) : Effect → Shared
  | .none => s
  | .lock => { s with mtx := some i }
  | .unlock => { s with mtx := .none }
  | .leave => { s with shutdownRead := false, shutdownWrite := false, mtx := .none }
  | .start => s.setActive c.op true
  | .store state => { s with connState := state }
  | .register res => { s with
      registry := (s.register i c res).1
      replaced := s.replaced ++ (s.register i c res).2.replaced.toList }
  | .finish => s.setActive c.op false

/-- The call after a step of its own. -/
def Call.move (c : Call) (effect : Effect) (pc : Pc) : Call :=
  { c with
    pc := pc
    starts := c.starts + (decide (effect = .start)).toNat
    finishes := c.finishes + (decide (effect = .finish)).toNat }

/-- A wait that has left the registry goes on. -/
def Call.wake (c : Call) (ec : ErrorCode) : Call :=
  match c.pc with
  | .waiting held => { c with pc := .woken held ec }
  | _ => c

/-- The atomic steps of the cancelling functions and of `close()`. -/
inductive Task where
  | cancelOp (op : Op)
  | cancelHandles
  | disconnect
  | clearShutdown
  | shutdownFd
  | takeOut
  | markClosing
deriving DecidableEq, Repr

inductive Request where
  | cancel
  | cancelRead
  | cancelWrite
  | cancelConnect
  | close
deriving DecidableEq, Repr

def Request.tasks : Request → List Task
  | .cancel => [.cancelOp .read, .cancelOp .write, .cancelOp .connect, .cancelHandles]
  | .cancelRead => [.cancelOp .read, .cancelHandles]
  | .cancelWrite => [.cancelOp .write, .cancelHandles]
  | .cancelConnect => [.cancelOp .connect, .cancelHandles]
  | .close => [.cancelOp .read, .cancelOp .write, .cancelOp .connect, .disconnect,
      .clearShutdown, .shutdownFd, .takeOut, .markClosing, .cancelHandles]

/-- A thread in one of these functions; `old` is the resource that its `close()` has
taken out. -/
structure Control where
  todo : List Task
  old : Option Nat := none
deriving DecidableEq, Repr

structure State where
  shared : Shared := {}
  calls : List Call := []
  controls : List Control := []

/-- A cancelled handle shows as a step of the reactor, to which it is posted, and the
shutdown of the descriptor in what the system calls answer. -/
def Shared.task (s : Shared) (old : Option Nat) : Task → Shared × Option Nat
  | .cancelOp op => ({ s with
      ops := Function.update s.ops op { s.ops op with epoch := (s.ops op).epoch + 1 } },
      old)
  | .disconnect => ({ s with connState := .disconnected }, old)
  | .clearShutdown => ({ s with shutdownRead := false, shutdownWrite := false }, old)
  | .takeOut => ({ s with res := none }, s.res)
  | .markClosing => ({ s with closing := old.toList ++ s.closing }, old)
  | .cancelHandles | .shutdownFd => (s, old)

def State.controlStep (s : State) (i : Nat) : Option State :=
  match s.controls[i]? with
  | some ⟨task :: todo, old⟩ =>
      let result := s.shared.task old task
      some { s with
        shared := result.1, controls := s.controls.set i { todo, old := result.2 } }
  | _ => none

/-- The reactor completes or aborts the wait of a call. -/
def State.wake (s : State) (op : Option Nat) (ec : ErrorCode) : State :=
  match op with
  | some j => { s with calls := s.calls.modify j fun c => c.wake ec }
  | none => s

/-- A call takes a step of its own. -/
def State.commit (s : State) (i : Nat) (c : Call) (effect : Effect) (pc : Pc) : State :=
  { s with
    shared := s.shared.apply i c effect
    calls := s.calls.set i (c.move effect pc) }

/-- The wait that a registration replaces is aborted. -/
def State.replacedBy (s : State) (i : Nat) (c : Call) : Effect → Option Nat
  | .register res => (s.shared.register i c res).2.replaced
  | _ => none

/-- `ready` is the dispatch of an event, `cancelHandle` a cancellation that reaches the
reactor; `setShutdown` is what `shutdown()` stores. -/
inductive Action where
  | open
  | assign
  | setShutdown (read write : Bool)
  | begin (op : Op) (empty : Bool)
  | call (i : Nat)
  | answer (i : Nat) (answer : Answer)
  | soError (i : Nat) (errno : Nat)
  | request (request : Request)
  | control (i : Nat)
  | ready (res : Nat) (canRead canWrite : Bool) (ec : ErrorCode)
  | cancelHandle (res : Nat) (kind : FdEventKind) (token : Nat)
deriving DecidableEq, Repr

def Pc.ended : Pc → Bool
  | .returned _ => true
  | _ => false

/-- What `assign` asks for: no call is under way and the socket is disconnected. -/
def State.unused (s : State) : Bool :=
  s.calls.all (fun c => c.pc.ended) &&
    s.controls.all (fun control => control.todo.isEmpty) &&
    s.shared.connState == .disconnected

/-- `res_` gets a new resource, whose descriptor the registry tracks. -/
def Shared.renew (s : Shared) : Shared :=
  { s with res := some s.made, made := s.made + 1, registry := s.registry.track s.made }

def step (s : State) : Action → Option State
  | .open =>
      if s.shared.res.isSome then none else some { s with shared := s.shared.renew }
  | .assign =>
      if s.unused then
        some { s with shared := { s.shared.renew with
          closing := s.shared.res.toList ++ s.shared.closing
          connState := .connected, shutdownRead := false, shutdownWrite := false } }
      else none
  | .setShutdown read write =>
      some { s with shared := { s.shared with
        shutdownRead := s.shared.shutdownRead || read
        shutdownWrite := s.shared.shutdownWrite || write } }
  | .begin op empty => some { s with calls := s.calls ++ [{ op, empty }] }
  | .call i =>
      s.calls[i]?.bind fun c => (callStep s.shared i c).map fun (effect, pc) =>
        (s.commit i c effect pc).wake (s.replacedBy i c effect) .operationAborted
  | .answer i answer =>
      s.calls[i]?.bind fun c =>
        match c.pc with
        | .invoke held => some (s.commit i c .none (c.afterInvoke held answer))
        | _ => none
  | .soError i errno =>
      s.calls[i]?.bind fun c =>
        match c.pc with
        | .soError held => some (s.commit i c .none (afterSoError held errno))
        | _ => none
  | .request request =>
      some { s with controls := s.controls ++ [{ todo := request.tasks }] }
  | .control i => s.controlStep i
  | .ready res canRead canWrite ec =>
      let taken := s.shared.registry.takeReady res canRead canWrite
      some (({ s with shared := { s.shared with registry := taken.1 } }.wake
        taken.2.read ec).wake taken.2.write ec)
  | .cancelHandle res kind token =>
      let cancelled := s.shared.registry.cancel res kind token
      some ({ s with shared := { s.shared with registry := cancelled.1 } }.wake
        cancelled.2.removed .operationAborted)

def system : TransitionSystem State Action where
  start := {}
  step := step

/-- The resource of a read or write that has found the socket connected and has not
come to its `finish`. -/
def Pc.seen : Pc → Option Nat
  | .loadShutdown res | .tryStart res | .loadEpoch res => some res
  | .checkEpoch held _ | .recheckClosing held _ | .invoke held | .waitGuard held
  | .register held | .waiting held | .woken held _ => some held.res
  | _ => none

/-- An `async_write_some` is under way that has found the socket connected. -/
def State.writing (s : State) (res : Nat) : Bool :=
  s.calls.any fun c => c.op == .write && c.pc.seen == some res

/-- No `::connect` is to wait while such a write is under way on the resource. -/
def calm (s : State) : Action → Bool
  | .answer i .wouldBlock =>
      match s.calls[i]? with
      | some ⟨.connect, _, .invoke held, _, _⟩ => !s.writing held.res
      | _ => true
  | _ => true

/-- For each `op_state` at most one call is between `try_start` and `finish`, and a call
that has returned has finished as often as it was started. -/
structure Balanced (s : State) : Prop where
  single : ∀ (i j : Nat) (c d : Call), s.calls[i]? = some c → s.calls[j]? = some d →
    c.op = d.op → c.inside = true → d.inside = true → i = j
  finished : ∀ (i : Nat) (c : Call), s.calls[i]? = some c →
    c.starts ≤ 1 ∧ c.finishes ≤ c.starts ∧ (c.pc.ended = true → c.finishes = c.starts)

/-- A call that is not started changes neither the state, nor an epoch, nor the
registry, and is refused; where its operation is under way it is busy. -/
structure TurnsAway (s : State) : Prop where
  unchanged : ∀ (i : Nat) (t : State) (c : Call), step s (.call i) = some t →
    t.calls[i]? = some c → c.starts = 0 →
    t.shared.connState = s.shared.connState ∧ t.shared.ops = s.shared.ops ∧
      t.shared.registry = s.shared.registry
  refused : ∀ (i : Nat) (c : Call) (result : Result), s.calls[i]? = some c →
    c.starts = 0 → c.pc = .returned result → result.refusal = true
  busy : ∀ (i j res : Nat) (c d : Call) (t : State), s.calls[i]? = some c →
    c.pc = .tryStart res → s.calls[j]? = some d → d.op = c.op → d.inside = true →
      step s (.call i) = some t →
      t.calls[i]? = some { c with pc := .returned (.failed .busy) }

/-- At most one wait for each resource and direction, and no registration has replaced
one. -/
structure OneWait (s : State) : Prop where
  single : ∀ (i j : Nat) (c d : Call) (held held' : Held), s.calls[i]? = some c →
    s.calls[j]? = some d → c.pc = .waiting held → d.pc = .waiting held' →
    held.res = held'.res → c.op.kind = d.op.kind → i = j
  unreplaced : s.shared.replaced = []

/-! ### Where a call stands -/

/-- It is between its `try_start` and its `finish`. -/
def Pc.holds : Pc → Bool
  | .loadEpoch _ | .storeConnecting _ | .leave _ | .checkEpoch _ _ | .recheckClosing _ _
  | .invoke _ | .waitGuard _ | .register _ | .waiting _ | .woken _ _ | .soError _
  | .store _ _ _ | .finish _ => true
  | _ => false

/-- Its `try_start` is still to come. -/
def Pc.entering : Pc → Bool
  | .acquire | .checkClosing _ | .guard _ | .lock _ | .loadState _ | .loadShutdown _
  | .tryStart _ => true
  | _ => false

/-- A connect that has stored `connecting` and not yet another state. -/
def Pc.attempting : Pc → Bool
  | .leave _ | .checkEpoch _ _ | .recheckClosing _ _ | .invoke _ | .waitGuard _
  | .register _ | .waiting _ | .woken _ _ | .soError _ => true
  | _ => false

/-- The resource of a call whose system call would block. -/
def Pc.blocked : Pc → Option Nat
  | .waitGuard held | .register held | .waiting held => some held.res
  | _ => none

/-- Only a connect comes here. -/
def Pc.ofConnect : Pc → Bool
  | .storeConnecting _ | .leave _ | .soError _ | .store _ _ _ => true
  | .checkEpoch _ next | .recheckClosing _ next =>
      decide (next = .soError ∨ next = .commit)
  | _ => false

/-- A step that the `op_state` does not take part in; `may` is where a call may become
blocked. -/
structure Walk (s : Shared) (c : Call) (may : Nat → Prop) (pc : Pc) : Prop where
  awake : ∀ held, c.pc ≠ .waiting held
  asleep : ∀ held, pc ≠ .waiting held
  holds : pc.holds = c.pc.holds
  entering : pc.entering = true → c.pc.entering = true
  refused : ∀ result, pc = .returned result → result.refusal = true
  seen : c.op = .write → ∀ res, pc.seen = some res →
    c.pc.seen = some res ∨ s.connState = .connected
  attempting : c.op = .connect → pc.attempting = true → c.pc.attempting = true
  blocked : ∀ res, pc.blocked = some res → c.pc.blocked = some res ∨ may res
  ofConnect : pc.ofConnect = true → c.op = .connect

/-- The steps of a call by what they do to the socket. -/
inductive CallStep (s : Shared) (i : Nat) (c : Call) (may : Nat → Prop) :
    Effect → Pc → Prop
  | walk {effect : Effect} {pc : Pc} (hquiet : effect.quiet = true)
      (hwalk : Walk s c may pc) : CallStep s i c may effect pc
  | start {res : Nat} (hpc : c.pc = .tryStart res)
      (hidle : (s.ops c.op).active = false) :
      CallStep s i c may .start (.loadEpoch res)
  | connecting {held : Held} (hpc : c.pc = .storeConnecting held) :
      CallStep s i c may (.store .connecting) (.leave held)
  | store {held : Held} {state : ConnState} {result : Result}
      (hpc : c.pc = .store held state result) :
      CallStep s i c may (.store state) (.finish result)
  | ready {held : Held} (hpc : c.pc = .register held)
      (hready : (s.register i c held.res).2.readyNow.isSome = true) :
      CallStep s i c may (.register held.res) (.woken held .none)
  | register {held : Held} (hpc : c.pc = .register held)
      (hready : (s.register i c held.res).2.readyNow = none) :
      CallStep s i c may (.register held.res) (.waiting held)
  | finish {result : Result} (hpc : c.pc = .finish result) :
      CallStep s i c may .finish (.returned result)

/-- What a call says about itself. -/
structure CallOk (c : Call) : Prop where
  count : c.starts = c.finishes + c.pc.holds.toNat
  once : c.starts ≤ 1
  entering : c.pc.entering = true → c.starts = 0
  ofConnect : c.pc.ofConnect = true → c.op = .connect
  refused : ∀ result, c.starts = 0 → c.pc = .returned result → result.refusal = true

section Walk

variable {s : Shared} {c : Call} {may : Nat → Prop} {pc : Pc}

theorem Pc.holds_of_entering (hentering : pc.entering = true) : pc.holds = false := by
  cases pc with
  | acquire | checkClosing | guard | lock | loadState | loadShutdown | tryStart => rfl
  | _ => nomatch hentering

theorem Pc.holds_of_attempting (hattempting : pc.attempting = true) :
    pc.holds = true := by
  cases pc with
  | leave | checkEpoch | recheckClosing | invoke | waitGuard | register | waiting
  | woken | soError => rfl
  | _ => nomatch hattempting

/-- A call that has not started is turned away. -/
theorem Walk.refuse {result : Result} (hentering : c.pc.entering = true)
    (hrefusal : result.refusal = true) : Walk s c may (.returned result) where
  awake := by
    intro held hpc
    rw [hpc] at hentering
    nomatch hentering
  asleep := nofun
  holds := (Pc.holds_of_entering hentering).symm
  entering := nofun
  refused := by
    rintro _ ⟨⟩
    exact hrefusal
  seen := nofun
  attempting := nofun
  blocked := nofun
  ofConnect := nofun

/-- A call gets nearer to its `try_start`. -/
theorem Walk.enter (hbefore : c.pc.entering = true) (hafter : pc.entering = true)
    (hseen : c.op = .write → ∀ res, pc.seen = some res →
      c.pc.seen = some res ∨ s.connState = .connected) : Walk s c may pc where
  awake := by
    intro held hpc
    rw [hpc] at hbefore
    nomatch hbefore
  asleep := by
    rintro held rfl
    nomatch hafter
  holds := (Pc.holds_of_entering hafter).trans (Pc.holds_of_entering hbefore).symm
  entering := fun _ => hbefore
  refused := by
    rintro result rfl
    nomatch hafter
  seen := hseen
  attempting := fun _ hattempting => by
    cases (Pc.holds_of_attempting hattempting).symm.trans (Pc.holds_of_entering hafter)
  blocked := by
    intro res hblocked
    cases pc with
    | waitGuard | register | waiting => nomatch hafter
    | _ => nomatch hblocked
  ofConnect := by
    intro hconnect
    cases pc with
    | storeConnecting | leave | soError | store | checkEpoch | recheckClosing =>
        nomatch hafter
    | _ => nomatch hconnect

/-- A call that was started goes on. -/
theorem Walk.run (hbefore : c.pc.attempting = true)
    (hawake : ∀ held, c.pc ≠ .waiting held)
    (hafter : pc.holds = true) (hasleep : ∀ held, pc ≠ .waiting held)
    (hseen : c.op = .write → ∀ res, pc.seen = some res → c.pc.seen = some res)
    (hblocked : ∀ res, pc.blocked = some res → c.pc.blocked = some res ∨ may res)
    (hconnect : pc.ofConnect = true → c.op = .connect) : Walk s c may pc where
  awake := hawake
  asleep := hasleep
  holds := hafter.trans (Pc.holds_of_attempting hbefore).symm
  entering := fun hentering => by
    cases hafter.symm.trans (Pc.holds_of_entering hentering)
  refused := by
    rintro result rfl
    nomatch hafter
  seen := fun hwrite res hpc => .inl (hseen hwrite res hpc)
  attempting := fun _ _ => hbefore
  blocked := hblocked
  ofConnect := hconnect

/-- A started call fails. -/
theorem Walk.fail (hbefore : c.pc.attempting = true)
    (hawake : ∀ held, c.pc ≠ .waiting held) (held : Held) (result : Result) :
    Walk s c may (c.fail held result) := by
  rw [Call.fail]
  split
  · next hconnect =>
      exact .run hbefore hawake rfl nofun nofun nofun fun _ => hconnect
  · exact .run hbefore hawake rfl nofun nofun nofun nofun

/-- What follows the load of the epoch. -/
theorem Walk.begin {res : Nat} {held : Held} (hpc : c.pc = .loadEpoch res)
    (hheld : held.res = res) :
    Walk s c may (if c.op = .connect then .storeConnecting held
      else if c.empty then .finish (.ok 0)
      else .checkEpoch held .invoke) := by
  have hrun : ∀ {pc : Pc}, pc.holds = true → (∀ held, pc ≠ .waiting held) →
      (c.op = .write → ∀ res, pc.seen = some res → held.res = res) → pc.blocked = none →
      (c.op = .connect → pc.attempting = false) →
      (pc.ofConnect = true → c.op = .connect) → Walk s c may pc :=
    fun hholds hasleep hseen hblocked hattempting hconnect =>
    { awake := by rw [hpc]; nofun
      asleep := hasleep
      holds := by rw [hholds, hpc]; rfl
      entering := fun hentering => by
        cases hholds.symm.trans (Pc.holds_of_entering hentering)
      refused := by
        rintro result rfl
        nomatch hholds
      seen := fun hwrite res h => .inl (by
        rw [hpc, ← hseen hwrite res h, hheld]
        rfl)
      attempting := fun hop h => by cases h.symm.trans (hattempting hop)
      blocked := by rw [hblocked]; nofun
      ofConnect := hconnect }
  split
  · next hop => exact hrun rfl nofun nofun rfl (fun _ => rfl) fun _ => hop
  · next hop =>
      split
      · exact hrun rfl nofun nofun rfl (fun _ => rfl) nofun
      · exact hrun rfl nofun (fun _ _ h => Option.some.inj h) rfl (absurd · hop) nofun

/-- What follows a passed check. -/
theorem Walk.pass {held : Held} {next : After} (hpc : c.pc = .recheckClosing held next)
    (hconnect : c.pc.ofConnect = true → c.op = .connect) :
    Walk s c may (next.pc held) := by
  have hrun : ∀ {pc : Pc}, pc.holds = true → (∀ held, pc ≠ .waiting held) →
      (∀ res, pc.seen = some res → held.res = res) → pc.blocked = none →
      (pc.ofConnect = true → c.op = .connect) → Walk s c may pc := by
    intro pc hholds hasleep hseen hblocked hconnect
    refine .run (by rw [hpc]; rfl) (by rw [hpc]; nofun) hholds hasleep
      (fun _ res hres => ?_) (by rw [hblocked]; nofun) hconnect
    rw [hpc]
    exact congrArg some (hseen res hres)
  rw [hpc] at hconnect
  cases next with
  | invoke => exact hrun rfl nofun (fun _ h => Option.some.inj h) rfl nofun
  | again => exact hrun rfl nofun (fun _ h => Option.some.inj h) rfl nofun
  | soError => exact hrun rfl nofun nofun rfl hconnect
  | commit => exact hrun rfl nofun nofun rfl hconnect

theorem Walk.afterWait {held : Held} {ec : ErrorCode} (hpc : c.pc = .woken held ec)
    (ec' : ErrorCode) : Walk s c may (c.afterWait held ec') := by
  have hrun : ∀ {pc : Pc}, pc.holds = true → (∀ held, pc ≠ .waiting held) →
      (c.op = .write → ∀ res, pc.seen = some res → held.res = res) → pc.blocked = none →
      (pc.ofConnect = true → c.op = .connect) → Walk s c may pc := by
    intro pc hholds hasleep hseen hblocked hconnect
    refine .run (by rw [hpc]; rfl) (by rw [hpc]; nofun) hholds hasleep
      (fun hwrite res hres => ?_) (by rw [hblocked]; nofun) hconnect
    rw [hpc]
    exact congrArg some (hseen hwrite res hres)
  rw [Call.afterWait]
  cases hop : c.op with
  | read =>
      simp only
      split
      · exact hrun rfl nofun (by rw [hop]; nofun) rfl nofun
      · split
        · exact hrun rfl nofun nofun rfl nofun
        · exact hrun rfl nofun nofun rfl nofun
  | write =>
      simp only
      split
      · exact hrun rfl nofun (fun _ res hres => Option.some.inj hres) rfl nofun
      · exact hrun rfl nofun nofun rfl nofun
  | connect =>
      simp only
      split
      · exact hrun rfl nofun nofun rfl fun _ => hop
      · exact hrun rfl nofun (by rw [hop]; nofun) rfl fun _ => hop

/-- What follows the system call. -/
theorem Walk.ofAnswer {held : Held} (hpc : c.pc = .invoke held)
    (answer : Answer) :
    Walk s c (fun n => answer = .wouldBlock ∧ n = held.res)
      (c.afterInvoke held answer) := by
  have hattempting : c.pc.attempting = true := by rw [hpc]; rfl
  have hawake : ∀ held, c.pc ≠ .waiting held := by rw [hpc]; nofun
  have hseen : ∀ res, some held.res = some res → c.pc.seen = some res := by
    intro res hres
    rw [hpc]
    exact hres
  cases answer with
  | done n =>
      rw [Call.afterInvoke]
      split
      · next hop => exact .run hattempting hawake rfl nofun nofun nofun fun _ => hop
      · exact .run hattempting hawake rfl nofun nofun nofun nofun
  | interrupted =>
      exact .run hattempting hawake rfl nofun (fun _ => hseen) nofun nofun
  | wouldBlock =>
      exact .run hattempting hawake rfl nofun (fun _ => hseen)
        (fun n hn => .inr ⟨rfl, (Option.some.inj hn).symm⟩) nofun
  | failed errno => exact .fail hattempting hawake held _

theorem Walk.ofSoError (hc : CallOk c) {held : Held} (hpc : c.pc = .soError held)
    (errno : Nat) : Walk s c may (afterSoError held errno) := by
  have hconnect := hc.ofConnect (by rw [hpc]; rfl)
  have hattempting : c.pc.attempting = true := by rw [hpc]; rfl
  have hawake : ∀ held, c.pc ≠ .waiting held := by rw [hpc]; nofun
  rw [afterSoError]
  split
  · exact .run hattempting hawake rfl nofun (by rw [hconnect]; nofun) nofun
      fun _ => hconnect
  · exact .run hattempting hawake rfl nofun nofun nofun fun _ => hconnect

end Walk

theorem callStep_cases {s : Shared} {i : Nat} {c : Call} {effect : Effect} {pc : Pc}
    (hc : CallOk c) (hstep : callStep s i c = some (effect, pc)) :
    CallStep s i c (fun _ => False) effect pc := by
  cases hpc : c.pc with
  | acquire =>
      simp only [callStep, hpc] at hstep
      have hentering : c.pc.entering = true := by rw [hpc]; rfl
      split at hstep
      · cases hstep
        exact .walk rfl (.refuse hentering rfl)
      · cases hstep
        exact .walk rfl (.enter hentering (by split <;> rfl) fun _ res hseen => by
          split at hseen <;> nomatch hseen)
  | checkClosing res =>
      simp only [callStep, hpc] at hstep
      have hentering : c.pc.entering = true := by rw [hpc]; rfl
      split at hstep
      · cases hstep
        exact .walk rfl (.refuse hentering rfl)
      · cases hstep
        exact .walk rfl (.enter hentering rfl nofun)
  | guard res =>
      simp only [callStep, hpc] at hstep
      have hentering : c.pc.entering = true := by rw [hpc]; rfl
      split at hstep
      · cases hstep
        exact .walk rfl (.enter hentering (by split <;> rfl) fun _ res hseen => by
          split at hseen <;> nomatch hseen)
      · cases hstep
        exact .walk rfl (.refuse hentering rfl)
  | lock res =>
      simp only [callStep, hpc] at hstep
      have hentering : c.pc.entering = true := by rw [hpc]; rfl
      split at hstep
      · cases hstep
        exact .walk rfl (.enter hentering rfl nofun)
      · nomatch hstep
  | loadState res =>
      simp only [callStep, hpc] at hstep
      have hentering : c.pc.entering = true := by rw [hpc]; rfl
      split at hstep
      · cases hstep
        exact .walk rfl (.refuse hentering rfl)
      · cases hstep
        exact .walk rfl (.refuse hentering rfl)
      · next hop _ =>
          cases hstep
          exact .walk rfl (.enter hentering rfl (by rw [hop]; nofun))
      · next hstate _ =>
          cases hstep
          exact .walk rfl (.enter hentering rfl fun _ _ _ => .inr hstate)
      · cases hstep
        exact .walk rfl (.refuse hentering rfl)
  | loadShutdown res =>
      simp only [callStep, hpc] at hstep
      have hentering : c.pc.entering = true := by rw [hpc]; rfl
      have hseen : c.pc.seen = some res := by rw [hpc]; rfl
      split at hstep
      · split at hstep
        · cases hstep
          exact .walk rfl (.refuse hentering rfl)
        · cases hstep
          exact .walk rfl (.enter hentering rfl fun _ _ h => .inl (hseen.trans h))
      · split at hstep
        · cases hstep
          exact .walk rfl (.refuse hentering rfl)
        · cases hstep
          exact .walk rfl (.enter hentering rfl fun _ _ h => .inl (hseen.trans h))
  | tryStart res =>
      simp only [callStep, hpc] at hstep
      have hentering : c.pc.entering = true := by rw [hpc]; rfl
      split at hstep
      · cases hstep
        exact .walk (by split <;> rfl) (.refuse hentering rfl)
      · next hidle =>
          cases hstep
          exact .start hpc (Bool.eq_false_iff.mpr hidle)
  | loadEpoch res =>
      simp only [callStep, hpc] at hstep
      cases hstep
      exact .walk rfl (.begin hpc rfl)
  | storeConnecting held =>
      simp only [callStep, hpc] at hstep
      cases hstep
      exact .connecting hpc
  | leave held =>
      simp only [callStep, hpc] at hstep
      have hconnect := hc.ofConnect (by rw [hpc]; rfl)
      cases hstep
      exact .walk rfl (.run (by rw [hpc]; rfl) (by rw [hpc]; nofun) rfl nofun
        (by rw [hconnect]; nofun) nofun nofun)
  | checkEpoch held next =>
      simp only [callStep, hpc] at hstep
      have hattempting : c.pc.attempting = true := by rw [hpc]; rfl
      have hawake : ∀ held, c.pc ≠ .waiting held := by rw [hpc]; nofun
      split at hstep
      · cases hstep
        refine .walk rfl (.run hattempting hawake rfl nofun (fun _ res h => ?_) nofun
          fun h => ?_)
        · rw [hpc]
          exact h
        · exact hc.ofConnect (by rw [hpc]; exact h)
      · cases hstep
        exact .walk rfl (.fail hattempting hawake held _)
  | recheckClosing held next =>
      simp only [callStep, hpc] at hstep
      have hattempting : c.pc.attempting = true := by rw [hpc]; rfl
      have hawake : ∀ held, c.pc ≠ .waiting held := by rw [hpc]; nofun
      split at hstep
      · cases hstep
        exact .walk rfl (.fail hattempting hawake held _)
      · cases hstep
        exact .walk rfl (.pass hpc hc.ofConnect)
  | waitGuard held =>
      simp only [callStep, hpc] at hstep
      have hattempting : c.pc.attempting = true := by rw [hpc]; rfl
      have hawake : ∀ held, c.pc ≠ .waiting held := by rw [hpc]; nofun
      cases hstep
      split
      · refine .walk rfl (.run hattempting hawake rfl nofun (fun _ res h => ?_)
          (fun res h => .inl ?_) nofun)
        · rw [hpc]
          exact h
        · rw [hpc]
          exact h
      · exact .walk rfl (.fail hattempting hawake held _)
  | register held =>
      simp only [callStep, hpc] at hstep
      cases hstep
      split
      · next hready => exact .ready hpc hready
      · next hready => exact .register hpc (Option.not_isSome_iff_eq_none.mp hready)
  | woken held ec =>
      simp only [callStep, hpc] at hstep
      cases hstep
      exact .walk rfl (.afterWait hpc _)
  | store held state result =>
      simp only [callStep, hpc] at hstep
      cases hstep
      exact .store hpc
  | finish result =>
      simp only [callStep, hpc] at hstep
      cases hstep
      exact .finish hpc
  | invoke | waiting | soError | returned =>
      simp only [callStep, hpc] at hstep
      nomatch hstep

end StreamWaits

end Iocoro
