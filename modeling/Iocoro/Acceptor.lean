/-
The acceptor: any number of threads accept, listen, open, cancel and close.  One accept
at a time is under way; a connection that it takes from the backlog is given to its
caller, in the order of arrival, or closed.
-/
import Mathlib.Data.BitVec
import Iocoro.FdWaits
import Iocoro.StreamWaits
import Iocoro.TransitionSystem

namespace Iocoro

namespace Acceptor

open StreamWaits (OpState Held)

/-! ### Errors of the system calls -/

/-- What `map_socket_errno` gives. -/
inductive SocketError where
  | brokenPipe
  | connectionReset
  | connectionRefused
  | connectionAborted
  | connectionTimedOut
  | hostUnreachable
  | networkUnreachable
  | addressInUse
  | addressNotAvailable
  | messageSize
  | system (errno : Nat)
deriving DecidableEq, Repr

/-- The cases are EPIPE, ECONNRESET, ECONNREFUSED, ECONNABORTED, ETIMEDOUT,
EHOSTUNREACH, ENETUNREACH, EADDRINUSE, EADDRNOTAVAIL and EMSGSIZE, with the numbers they
have on Linux. -/
def mapSocketErrno (errno : Nat) : SocketError :=
  match errno with
  | 32 => .brokenPipe
  | 104 => .connectionReset
  | 111 => .connectionRefused
  | 103 => .connectionAborted
  | 110 => .connectionTimedOut
  | 113 => .hostUnreachable
  | 101 => .networkUnreachable
  | 98 => .addressInUse
  | 99 => .addressNotAvailable
  | 90 => .messageSize
  | _ => .system errno

def eintr : Nat := 4
def eagain : Nat := 11
def enosys : Nat := 38

/-- ENETDOWN, EPROTO, ENOPROTOOPT, EHOSTDOWN, ENONET, EHOSTUNREACH, EOPNOTSUPP and
ENETUNREACH. -/
def isAcceptTransientError (errno : Nat) : Bool :=
  decide (errno ∈ [100, 71, 92, 112, 64, 113, 95, 101])

/-! ### An accept -/

/-- A connection: the listening socket it came to, and how many came before it. -/
structure Connection where
  listener : Nat
  number : Nat
deriving DecidableEq, Repr

inductive Error where
  | notOpen
  | operationAborted
  | notListening
  | busy
  | socket (error : SocketError)
  | wait (ec : ErrorCode)
deriving DecidableEq, Repr

inductive Result where
  | accepted (connection : Connection)
  | failed (error : Error)
deriving DecidableEq, Repr

/-- What an accept gives that was not started. -/
def Result.refusal : Result → Bool
  | .failed .notOpen | .failed .operationAborted | .failed .notListening
  | .failed .busy => true
  | _ => false

/-- What follows a check of the epoch and of `closing()`: the system call, the return
of the connection, the wait, or the next round of the loop. -/
inductive After where
  | invoke
  | keep (connection : Connection)
  | wait
  | again
deriving DecidableEq, Repr

/-- Where an accept stands.  `accept` is the call without flags, after which the
descriptor is set up; `waitGuard` to `woken` is `wait_ready_impl`, and `finish` the
scope guard. -/
inductive Pc where
  | acquire
  | guard (res : Nat)
  | lock (res : Nat)
  | checkListening (res : Nat)
  | tryStart (res : Nat)
  | loadEpoch (res : Nat)
  | leave (held : Held)
  | checkEpoch (held : Held) (next : After)
  | recheckClosing (held : Held) (next : After)
  | accept4 (held : Held)
  | accept (held : Held)
  | setCloexec (held : Held) (connection : Connection)
  | setNonblocking (held : Held) (connection : Connection)
  | closeFd (connection : Connection) (error : Error)
  | waitGuard (held : Held)
  | waitRefused (held : Held)
  | register (held : Held)
  | waiting (held : Held)
  | woken (held : Held) (ec : ErrorCode)
  | finish (result : Result)
  | returned (result : Result)
deriving DecidableEq, Repr

/-- A call of `async_accept`; `starts` and `finishes` count its successful `try_start`
and its `finish`. -/
structure Call where
  pc : Pc := .acquire
  starts : Nat := 0
  finishes : Nat := 0
deriving DecidableEq, Repr

/-- It is between its `try_start` and its `finish`. -/
def Call.inside (c : Call) : Bool :=
  decide (c.finishes < c.starts)

inductive Holder where
  | call (i : Nat)
  | control (i : Nat)
deriving DecidableEq, Repr

/-- The acceptor.  The number of a resource stands for its listening socket; `arrived`
and `taken` count the connections that have come to it and that were accepted.
`delivered` are the connections given to callers, in the order of the returns, each with
its call, and `dropped` those closed. -/
structure Shared where
  res : Option Nat := none
  made : Nat := 0
  closing : List Nat := []
  listening : Bool := false
  acceptOp : OpState := {}
  mtx : Option Holder := none
  registry : FdRegistry Nat := {}
  replaced : List Nat := []
  arrived : Nat → Nat := fun _ => 0
  taken : Nat → Nat := fun _ => 0
  delivered : List (Nat × Connection) := []
  dropped : List Connection := []

/-- The check of `make_operation_guard`. -/
def Shared.guards (s : Shared) (res : Nat) : Bool :=
  decide (s.res = some res) && decide (res ∉ s.closing)

/-- What a step of a call does to the acceptor. -/
inductive Effect where
  | none
  | lock
  | unlock
  | start
  | take (listener : Nat)
  | drop (connection : Connection)
  | register (res : Nat)
  | finish (result : Result)
deriving DecidableEq, Repr

/-- A step that touches no more than the lock. -/
def Effect.quiet : Effect → Bool
  | .none | .lock | .unlock => true
  | _ => false

/-- Where a passed check leads. -/
def After.pc (held : Held) : After → Pc
  | .invoke => .accept4 held
  | .keep connection => .finish (.accepted connection)
  | .wait => .waitGuard held
  | .again => .checkEpoch held .invoke

/-- Where a failed check leads. -/
def After.abort : After → Pc
  | .keep connection => .closeFd connection .operationAborted
  | _ => .finish (.failed .operationAborted)

/-- Where the end of a wait leads. -/
def afterWait (held : Held) (ec : ErrorCode) : Pc :=
  if ec = .none then .checkEpoch held .again else .finish (.failed (.wait ec))

/-- The steps of a call between its system calls and its waits. -/
def callStep (s : Shared) (i : Nat) (c : Call) : Option (Effect × Pc) :=
  match c.pc with
  | .acquire =>
      match s.res with
      | none => some (.none, .returned (.failed .notOpen))
      | some res => some (.none, .guard res)
  | .guard res =>
      some (.none,
        if s.guards res then .lock res else .returned (.failed .operationAborted))
  | .lock res => if s.mtx.isNone then some (.lock, .checkListening res) else none
  | .checkListening res =>
      if s.listening then some (.none, .tryStart res)
      else some (.unlock, .returned (.failed .notListening))
  | .tryStart res =>
      if s.acceptOp.active then some (.unlock, .returned (.failed .busy))
      else some (.start, .loadEpoch res)
  | .loadEpoch res => some (.none, .leave ⟨res, s.acceptOp.epoch⟩)
  | .leave held => some (.unlock, .checkEpoch held .invoke)
  | .checkEpoch held next =>
      some (.none,
        if s.acceptOp.epoch = held.epoch then .recheckClosing held next else next.abort)
  | .recheckClosing held next =>
      some (.none, if held.res ∈ s.closing then next.abort else next.pc held)
  | .closeFd connection error => some (.drop connection, .finish (.failed error))
  | .waitGuard held =>
      some (.none, if s.guards held.res then .register held else .waitRefused held)
  | .waitRefused held =>
      some (.none, .finish (.failed (.wait
        (if held.res ∈ s.closing then .operationAborted else .notOpen))))
  | .register held =>
      let result := (s.registry.registerImpl held.res (some i) .read).2
      some (.register held.res,
        if result.readyNow.isSome then .woken held .none else .waiting held)
  | .woken held ec =>
      some (.none, afterWait held
        (if ec = .none ∧ held.res ∈ s.closing then .operationAborted else ec))
  | .finish result => some (.finish result, .returned result)
  | .accept4 _ | .accept _ | .setCloexec _ _ | .setNonblocking _ _ | .waiting _
  | .returned _ => none

/-- Where a failed `::accept4` or `::accept` leads. -/
def afterErrno (held : Held) (errno : Nat) : Pc :=
  if errno = eintr then .checkEpoch held .invoke
  else if isAcceptTransientError errno then .checkEpoch held .invoke
  else if errno = eagain then .checkEpoch held .wait
  else .finish (.failed (.socket (mapSocketErrno errno)))

/-- The result of `::accept4` or `::accept`: `none` is a descriptor, which there is
only for a connection that has come. -/
def acceptStep (s : Shared) (c : Call) (errno : Option Nat) : Option (Effect × Pc) :=
  match c.pc, errno with
  | .accept4 held, none =>
      if s.taken held.res < s.arrived held.res then
        some (.take held.res,
          .checkEpoch held (.keep ⟨held.res, s.taken held.res⟩))
      else none
  | .accept4 held, some errno =>
      some (.none, if errno = enosys then .accept held else afterErrno held errno)
  | .accept held, none =>
      if s.taken held.res < s.arrived held.res then
        some (.take held.res, .setCloexec held ⟨held.res, s.taken held.res⟩)
      else none
  | .accept held, some errno => some (.none, afterErrno held errno)
  | _, _ => none

/-- The result of `set_cloexec` or `set_nonblocking`: `none` is success. -/
def setupStep (c : Call) (errno : Option Nat) : Option (Effect × Pc) :=
  match c.pc, errno with
  | .setCloexec held connection, none => some (.none, .setNonblocking held connection)
  | .setNonblocking held connection, none =>
      some (.none, .checkEpoch held (.keep connection))
  | .setCloexec _ connection, some errno | .setNonblocking _ connection, some errno =>
      some (.none, .closeFd connection (.socket (mapSocketErrno errno)))
  | _, _ => none

/-- The connection that a call gives its caller. -/
def Result.connection : Result → Option Connection
  | .accepted connection => some connection
  | .failed _ => none

def Shared.setActive (s : Shared) (active : Bool) : Shared :=
  { s with acceptOp := { s.acceptOp with active := active } }

def Shared.apply (s : Shared) (i : Nat) : Effect → Shared
  | .none => s
  | .lock => { s with mtx := some (.call i) }
  | .unlock => { s with mtx := none }
  | .start => s.setActive true
  | .take listener =>
      { s with taken := Function.update s.taken listener (s.taken listener + 1) }
  | .drop connection => { s with dropped := s.dropped ++ [connection] }
  | .register res =>
      let result := s.registry.registerImpl res (some i) .read
      { s with
        registry := result.1, replaced := s.replaced ++ result.2.replaced.toList }
  | .finish result =>
      { s.setActive false with
        delivered := s.delivered ++ result.connection.toList.map ((i, ·)) }

/-- The call after a step of its own. -/
def Call.move (c : Call) (effect : Effect) (pc : Pc) : Call :=
  match effect with
  | .start => { c with pc := pc, starts := c.starts + 1 }
  | .finish _ => { c with pc := pc, finishes := c.finishes + 1 }
  | _ => { c with pc := pc }

/-- A wait that has left the registry goes on. -/
def Call.wake (ec : ErrorCode) (c : Call) : Call :=
  match c.pc with
  | .waiting held => { c with pc := .woken held ec }
  | _ => c

/-! ### The other member functions -/

/-- The atomic steps of `open`, `listen`, `cancel_read` and `close`.  `openBase`, a
`listenFd` that fails and a `checkClosing` that finds the resource closing end the
function. -/
inductive Task where
  | openBase
  | acquire
  | checkClosing
  | listenFd
  | lock
  | setListening (listening : Bool)
  | cancelOp
  | unlock
  | takeOut
  | markClosing
  | cancelHandles
deriving DecidableEq, Repr

inductive Request where
  | open
  | listen
  | cancelRead
  | close
deriving DecidableEq, Repr

def Request.tasks : Request → List Task
  | .open => [.openBase, .lock, .setListening false, .unlock]
  | .listen => [.acquire, .checkClosing, .listenFd, .lock, .setListening true, .unlock]
  | .cancelRead => [.lock, .cancelOp, .unlock, .cancelHandles]
  | .close => [.lock, .cancelOp, .setListening false, .unlock, .takeOut, .markClosing,
      .cancelHandles]

/-- A thread in one of these functions; `old` is the resource that its `listen()` uses
or its `close()` has taken out. -/
structure Control where
  todo : List Task
  old : Option Nat := none
deriving DecidableEq, Repr

/-- A new listening socket, whose descriptor the registry tracks. -/
def Shared.renew (s : Shared) : Shared :=
  { s with res := some s.made, made := s.made + 1, registry := s.registry.track s.made }

/-- A task of control `i`: the acceptor and `old` after it, and whether the function
goes on.  `ok` is the outcome of the system calls, and a cancelled handle shows as a step
of the reactor, to which it is posted. -/
def Shared.task (s : Shared) (i : Nat) (old : Option Nat) (ok : Bool) :
    Task → Option (Shared × Option Nat × Bool)
  | .openBase =>
      if s.res.isNone ∧ ok then some (s.renew, old, true) else some (s, old, false)
  | .acquire => some (s, s.res, s.res.isSome)
  | .checkClosing => some (s, old, old.all (· ∉ s.closing))
  | .listenFd => some (s, old, ok)
  | .lock =>
      if s.mtx.isNone then some ({ s with mtx := some (.control i) }, old, true)
      else none
  | .setListening listening => some ({ s with listening }, old, true)
  | .cancelOp =>
      some ({ s with
        acceptOp := { s.acceptOp with epoch := s.acceptOp.epoch + 1 } }, old, true)
  | .unlock => some ({ s with mtx := none }, old, true)
  | .takeOut => some ({ s with res := none }, s.res, true)
  | .markClosing => some ({ s with closing := old.toList ++ s.closing }, old, true)
  | .cancelHandles => some (s, old, true)

structure State where
  shared : Shared := {}
  calls : List Call := []
  controls : List Control := []

def State.controlStep (s : State) (i : Nat) (ok : Bool) : Option State :=
  match s.controls[i]? with
  | some ⟨task :: todo, old⟩ =>
      (s.shared.task i old ok task).map fun (shared, old, goesOn) =>
        { s with
          shared
          controls := s.controls.set i { todo := if goesOn then todo else [], old } }
  | _ => none

/-- A call takes a step of its own. -/
def State.commit (s : State) (i : Nat) (c : Call) (effect : Effect) (pc : Pc) : State :=
  { s with
    shared := s.shared.apply i effect
    calls := s.calls.set i (c.move effect pc) }

/-- The reactor completes or aborts the wait of a call. -/
def State.wake (s : State) (op : Option Nat) (ec : ErrorCode) : State :=
  { s with calls := FdRegistry.wake (Call.wake ec) op s.calls }

/-- The wait that a registration replaces is aborted. -/
def State.replacedBy (s : State) (i : Nat) : Effect → Option Nat
  | .register res => (s.shared.registry.registerImpl res (some i) .read).2.replaced
  | _ => none

/-- `arrive` is a connection that comes to a listening socket, `ready` the dispatch of
an event, `cancelHandle` a cancellation that reaches the reactor. -/
inductive Action where
  | arrive (listener : Nat)
  | begin
  | call (i : Nat)
  | accept (i : Nat) (errno : Option Nat)
  | setup (i : Nat) (errno : Option Nat)
  | request (request : Request)
  | control (i : Nat) (ok : Bool)
  | ready (res : Nat) (canRead canWrite : Bool) (ec : ErrorCode)
  | cancelHandle (res token : Nat)
deriving DecidableEq, Repr

/-- The step that a call takes, where `f` says which. -/
def State.moves (s : State) (i : Nat) (f : Call → Option (Effect × Pc)) :
    Option State :=
  s.calls[i]?.bind fun c => (f c).map fun (effect, pc) =>
    (s.commit i c effect pc).wake (s.replacedBy i effect) .operationAborted

def step (s : State) : Action → Option State
  | .arrive listener =>
      some { s with shared := { s.shared with
        arrived := Function.update s.shared.arrived listener
          (s.shared.arrived listener + 1) } }
  | .begin => some { s with calls := s.calls ++ [{}] }
  | .call i => s.moves i (callStep s.shared i)
  | .accept i errno => s.moves i fun c => acceptStep s.shared c errno
  | .setup i errno => s.moves i fun c => setupStep c errno
  | .request request =>
      some { s with controls := s.controls ++ [{ todo := request.tasks }] }
  | .control i ok => s.controlStep i ok
  | .ready res canRead canWrite ec =>
      let taken := s.shared.registry.takeReady res canRead canWrite
      some (({ s with shared := { s.shared with registry := taken.1 } }.wake
        taken.2.read ec).wake taken.2.write ec)
  | .cancelHandle res token =>
      let cancelled := s.shared.registry.cancel res .read token
      some ({ s with shared := { s.shared with registry := cancelled.1 } }.wake
        cancelled.2.removed .operationAborted)

def system : TransitionSystem State Action where
  start := {}
  step := step

/-! ### What is said of a call -/

def Pc.ended : Pc → Bool
  | .returned _ => true
  | _ => false

/-- The connection that a call has given its caller. -/
def Pc.given : Pc → Option Connection
  | .returned result => result.connection
  | _ => none

/-- The connection that a call has in its hands. -/
def Pc.hand : Pc → Option Connection
  | .checkEpoch _ (.keep connection) | .recheckClosing _ (.keep connection)
  | .setCloexec _ connection | .setNonblocking _ connection | .closeFd connection _ =>
      some connection
  | .finish result => result.connection
  | _ => none

/-- Where a call waits. -/
def Pc.waits : Pc → Option (Nat × FdEventKind)
  | .waiting held => some (held.res, .read)
  | _ => none

/-- The resource of a call that has not passed its last check of `closing()`. -/
def Pc.uses : Pc → Option Nat
  | .guard res | .lock res | .checkListening res | .tryStart res | .loadEpoch res =>
      some res
  | .leave held | .checkEpoch held _ | .recheckClosing held _ | .accept4 held
  | .accept held | .setCloexec held _ | .setNonblocking held _ | .waitGuard held
  | .waitRefused held | .register held | .waiting held | .woken held _ => some held.res
  | _ => none

/-- It gives its caller an error, whatever comes. -/
def Pc.fails : Pc → Bool
  | .closeFd _ _ | .finish (.failed _) | .returned (.failed _) => true
  | _ => false

/-- It fails, or has yet to find its resource closing. -/
def Pc.lapsed (closing : List Nat) (pc : Pc) : Bool :=
  pc.fails || pc.uses.any (· ∈ closing)

/-- At most one call is between `try_start` and `finish`; a call is started at most once,
and one that has returned has finished as often as it was started. -/
structure Turns (s : State) : Prop where
  single : ∀ (i j : Nat) (c d : Call), s.calls[i]? = some c → s.calls[j]? = some d →
    c.inside = true → d.inside = true → i = j
  finished : ∀ (i : Nat) (c : Call), s.calls[i]? = some c →
    c.starts ≤ 1 ∧ c.finishes ≤ c.starts ∧ (c.pc.ended = true → c.finishes = c.starts)

/-- A call that is not started changes no more than the lock, and is refused; where an
accept is under way it is busy. -/
structure TurnsAway (s : State) : Prop where
  unchanged : ∀ (i : Nat) (t : State) (c : Call), step s (.call i) = some t →
    t.calls[i]? = some c → c.starts = 0 →
    { t.shared with mtx := none } = { s.shared with mtx := none }
  refused : ∀ (i : Nat) (c : Call) (result : Result), s.calls[i]? = some c →
    c.starts = 0 → c.pc = .returned result → result.refusal = true
  busy : ∀ (i j res : Nat) (c d : Call) (t : State), s.calls[i]? = some c →
    c.pc = .tryStart res → s.calls[j]? = some d → d.inside = true →
      step s (.call i) = some t →
      t.calls[i]? = some { c with pc := .returned (.failed .busy) }

/-- The registry stores the wait of the call that waits, and no registration has
replaced a wait. -/
structure Waits (s : State) : Prop where
  stored : ∀ (i n : Nat) (kind : FdEventKind),
    (s.shared.registry.slotAt n kind).op = some i ↔
      ∃ c held, s.calls[i]? = some c ∧ c.pc = .waiting held ∧ held.res = n ∧
        kind = .read
  single : ∀ (i j : Nat) (c d : Call), s.calls[i]? = some c → s.calls[j]? = some d →
    c.pc.waits.isSome = true → d.pc.waits.isSome = true → i = j
  unreplaced : s.shared.replaced = []

/-- A connection that was accepted is in one place: with one caller, closed, or in the
hands of one call.  The callers have what their calls returned, and the connections of a
listening socket are given out in the order in which they came. -/
structure Delivery (s : State) : Prop where
  arrived : ∀ listener, s.shared.taken listener ≤ s.shared.arrived listener
  once : ∀ connection : Connection,
    (s.shared.delivered.map Prod.snd).count connection +
        s.shared.dropped.count connection +
        Inventory.held (fun c : Call => c.pc.hand.toList) s.calls connection =
      if connection.number < s.shared.taken connection.listener then 1 else 0
  returned : ∀ i, (s.shared.delivered.filter fun given => given.1 = i).map Prod.snd =
    ((s.calls[i]?.bind fun c => c.pc.given)).toList
  ordered : (s.shared.delivered.map Prod.snd).Pairwise fun first later =>
    first.listener = later.listener → first.number < later.number

/-! ### The steps of a call -/

/-- It is between its `try_start` and its `finish`. -/
def Pc.holds : Pc → Bool
  | .acquire | .guard _ | .lock _ | .checkListening _ | .tryStart _ | .returned _ =>
      false
  | _ => true

/-- Its `try_start` is still to come. -/
def Pc.entering : Pc → Bool
  | .acquire | .guard _ | .lock _ | .checkListening _ | .tryStart _ => true
  | _ => false

/-- It is about to invoke `::accept4` or `::accept`. -/
def Pc.invokes : Pc → Option Held
  | .accept4 held | .accept held => some held
  | _ => none

/-- A step in which nothing is accepted, closed or given out. -/
structure Walk (s : Shared) (c : Call) (pc : Pc) : Prop where
  awake : c.pc.waits = none
  asleep : pc.waits = none
  holds : pc.holds = c.pc.holds
  entering : pc.entering = true → c.pc.entering = true
  hand : pc.hand = c.pc.hand
  unended : c.pc.given = none
  given : pc.given = none
  refused : ∀ result, pc = .returned result → result.refusal = true
  lapsed : c.pc.lapsed s.closing = true → pc.lapsed s.closing = true

/-- The steps of a call by what they do to the acceptor. -/
inductive CallStep (s : Shared) (i : Nat) (c : Call) : Effect → Pc → Prop
  | walk {effect : Effect} {pc : Pc} (hquiet : effect.quiet = true)
      (hwalk : Walk s c pc) : CallStep s i c effect pc
  | start {res : Nat} (hpc : c.pc = .tryStart res) (hidle : s.acceptOp.active = false) :
      CallStep s i c .start (.loadEpoch res)
  | take {held : Held} {pc : Pc} (hpc : c.pc.invokes = some held)
      (hbacklog : s.taken held.res < s.arrived held.res)
      (hnew : pc = .checkEpoch held (.keep ⟨held.res, s.taken held.res⟩) ∨
        pc = .setCloexec held ⟨held.res, s.taken held.res⟩) :
      CallStep s i c (.take held.res) pc
  | drop {connection : Connection} {error : Error}
      (hpc : c.pc = .closeFd connection error) :
      CallStep s i c (.drop connection) (.finish (.failed error))
  | ready {held : Held} (hpc : c.pc = .register held)
      (hready : (s.registry.registerImpl held.res (some i) .read).2.readyNow.isSome =
        true) :
      CallStep s i c (.register held.res) (.woken held .none)
  | register {held : Held} (hpc : c.pc = .register held)
      (hready : (s.registry.registerImpl held.res (some i) .read).2.readyNow = none) :
      CallStep s i c (.register held.res) (.waiting held)
  | finish {result : Result} (hpc : c.pc = .finish result) :
      CallStep s i c (.finish result) (.returned result)

section Walk

variable {s : Shared} {c : Call} {pc : Pc}

theorem Pc.holds_of_entering (hentering : pc.entering = true) : pc.holds = false := by
  cases pc with
  | acquire | guard | lock | checkListening | tryStart => rfl
  | _ => cases hentering

theorem Pc.hand_of_entering (hentering : pc.entering = true) : pc.hand = none := by
  cases pc with
  | acquire | guard | lock | checkListening | tryStart => rfl
  | _ => cases hentering

theorem Pc.waits_of_entering (hentering : pc.entering = true) : pc.waits = none := by
  cases pc with
  | acquire | guard | lock | checkListening | tryStart => rfl
  | _ => cases hentering

theorem Pc.given_of_entering (hentering : pc.entering = true) : pc.given = none := by
  cases pc with
  | acquire | guard | lock | checkListening | tryStart => rfl
  | _ => cases hentering

theorem Pc.given_of_holds (hholds : pc.holds = true) : pc.given = none := by
  cases pc with
  | acquire | guard | lock | checkListening | tryStart | returned => cases hholds
  | _ => rfl

theorem Pc.entering_of_holds (hholds : pc.holds = true) : pc.entering = false := by
  cases pc with
  | acquire | guard | lock | checkListening | tryStart | returned => cases hholds
  | _ => rfl

theorem Pc.holds_of_hand {connection : Connection} (hhand : pc.hand = some connection) :
    pc.holds = true := by
  cases pc with
  | acquire | guard | lock | checkListening | tryStart | returned => cases hhand
  | _ => rfl

theorem Pc.holds_of_waits {place : Nat × FdEventKind} (hwaits : pc.waits = some place) :
    pc.holds = true := by
  cases pc with
  | waiting => rfl
  | _ => cases hwaits

/-- A call that has not started is turned away. -/
theorem Walk.refuse {result : Result} (hentering : c.pc.entering = true)
    (hrefusal : result.refusal = true) : Walk s c (.returned result) where
  awake := Pc.waits_of_entering hentering
  asleep := rfl
  holds := (Pc.holds_of_entering hentering).symm
  entering := by
    intro h
    cases h
  hand := (Pc.hand_of_entering hentering).symm
  unended := Pc.given_of_entering hentering
  given := by
    cases result with
    | accepted => cases hrefusal
    | failed => rfl
  refused := by
    rintro _ ⟨⟩
    exact hrefusal
  lapsed := by
    intro _
    cases result with
    | accepted => cases hrefusal
    | failed => rfl

/-- A call gets nearer to its `try_start`. -/
theorem Walk.enter {before : Pc} (hpc : c.pc = before) (hbefore : before.entering = true)
    (hafter : pc.entering = true)
    (hlapsed : before.lapsed s.closing = true → pc.lapsed s.closing = true) :
    Walk s c pc where
  awake := hpc ▸ Pc.waits_of_entering hbefore
  asleep := Pc.waits_of_entering hafter
  holds := (Pc.holds_of_entering hafter).trans (hpc ▸ Pc.holds_of_entering hbefore).symm
  entering := fun _ => hpc ▸ hbefore
  hand := (Pc.hand_of_entering hafter).trans (hpc ▸ Pc.hand_of_entering hbefore).symm
  unended := hpc ▸ Pc.given_of_entering hbefore
  given := Pc.given_of_entering hafter
  refused := by
    rintro result rfl
    cases hafter
  lapsed := hpc ▸ hlapsed

/-- A call that was started goes on. -/
theorem Walk.run {before : Pc} (hpc : c.pc = before) (hbefore : before.holds = true)
    (hafter : pc.holds = true) (hawake : before.waits = none) (hasleep : pc.waits = none)
    (hhand : pc.hand = before.hand)
    (hlapsed : before.lapsed s.closing = true → pc.lapsed s.closing = true) :
    Walk s c pc where
  awake := hpc ▸ hawake
  asleep := hasleep
  holds := hafter.trans (hpc ▸ hbefore.symm)
  entering := by
    intro h
    cases h.symm.trans (Pc.entering_of_holds hafter)
  hand := hpc ▸ hhand
  unended := Pc.given_of_holds (hpc ▸ hbefore)
  given := Pc.given_of_holds hafter
  refused := by
    rintro result rfl
    cases hafter
  lapsed := hpc ▸ hlapsed

theorem Walk.abort {held : Held} {next : After}
    (hpc : c.pc = .checkEpoch held next ∨ c.pc = .recheckClosing held next) :
    Walk s c next.abort := by
  rcases hpc with hpc | hpc
  · cases next with
    | invoke | keep | wait | again =>
        exact .run hpc rfl rfl rfl rfl rfl fun _ => rfl
  · cases next with
    | invoke | keep | wait | again =>
        exact .run hpc rfl rfl rfl rfl rfl fun _ => rfl

theorem Walk.pass {held : Held} {next : After} (hpc : c.pc = .recheckClosing held next)
    (hopen : held.res ∉ s.closing) : Walk s c (next.pc held) := by
  have hlapsed : ∀ {pc : Pc}, (Pc.recheckClosing held next).lapsed s.closing = true →
      pc.lapsed s.closing = true := by
    intro pc h
    exact absurd (of_decide_eq_true h) hopen
  cases next with
  | invoke | keep | wait | again => exact .run hpc rfl rfl rfl rfl rfl hlapsed

theorem Walk.afterWait {held : Held} {ec : ErrorCode} (hpc : c.pc = .woken held ec)
    (ec' : ErrorCode) : Walk s c (afterWait held ec') := by
  rw [Acceptor.afterWait]
  split
  · exact .run hpc rfl rfl rfl rfl rfl id
  · exact .run hpc rfl rfl rfl rfl rfl fun _ => rfl

theorem Walk.afterErrno {held : Held} (hpc : c.pc = .accept4 held ∨ c.pc = .accept held)
    (errno : Nat) : Walk s c (afterErrno held errno) := by
  have hrun : ∀ {pc : Pc}, pc.holds = true → pc.waits = none → pc.hand = none →
      (pc.fails = true ∨ pc.uses = some held.res) → Walk s c pc := by
    intro pc hholds hwaits hhand huses
    have hlapsed : decide (held.res ∈ s.closing) = true → pc.lapsed s.closing = true := by
      intro hclosing
      rw [Pc.lapsed]
      rcases huses with hfails | huses
      · rw [hfails]
        rfl
      · rw [huses, Option.any_some, hclosing, Bool.or_true]
    rcases hpc with hpc | hpc
    · exact .run hpc rfl hholds rfl hwaits hhand hlapsed
    · exact .run hpc rfl hholds rfl hwaits hhand hlapsed
  rw [Acceptor.afterErrno]
  split
  · exact hrun rfl rfl rfl (.inr rfl)
  · split
    · exact hrun rfl rfl rfl (.inr rfl)
    · split
      · exact hrun rfl rfl rfl (.inr rfl)
      · exact hrun rfl rfl rfl (.inl rfl)

end Walk

theorem callStep_cases {s : Shared} {i : Nat} {c : Call} {effect : Effect} {pc : Pc}
    (hstep : callStep s i c = some (effect, pc)) : CallStep s i c effect pc := by
  cases hpc : c.pc with
  | acquire =>
      simp only [callStep, hpc] at hstep
      have hentering : c.pc.entering = true := by rw [hpc]; rfl
      split at hstep
      · cases hstep
        exact .walk rfl (.refuse hentering rfl)
      · cases hstep
        exact .walk rfl (.enter hpc rfl rfl (by intro h; cases h))
  | guard res =>
      simp only [callStep, hpc] at hstep
      have hentering : c.pc.entering = true := by rw [hpc]; rfl
      split at hstep
      · cases hstep
        exact .walk rfl (.enter hpc rfl rfl id)
      · cases hstep
        exact .walk rfl (.refuse hentering rfl)
  | lock res =>
      simp only [callStep, hpc] at hstep
      have hentering : c.pc.entering = true := by rw [hpc]; rfl
      split at hstep
      · cases hstep
        exact .walk rfl (.enter hpc rfl rfl id)
      · cases hstep
  | checkListening res =>
      simp only [callStep, hpc] at hstep
      have hentering : c.pc.entering = true := by rw [hpc]; rfl
      split at hstep
      · cases hstep
        exact .walk rfl (.enter hpc rfl rfl id)
      · cases hstep
        exact .walk rfl (.refuse hentering rfl)
  | tryStart res =>
      simp only [callStep, hpc] at hstep
      have hentering : c.pc.entering = true := by rw [hpc]; rfl
      split at hstep
      · cases hstep
        exact .walk rfl (.refuse hentering rfl)
      · next hidle =>
          cases hstep
          exact .start hpc (Bool.eq_false_iff.mpr hidle)
  | loadEpoch | leave =>
      simp only [callStep, hpc] at hstep
      cases hstep
      exact .walk rfl (.run hpc rfl rfl rfl rfl rfl id)
  | waitRefused held =>
      simp only [callStep, hpc] at hstep
      cases hstep
      exact .walk rfl (.run hpc rfl rfl rfl rfl rfl fun _ => rfl)
  | checkEpoch held next =>
      simp only [callStep, hpc] at hstep
      split at hstep
      · cases hstep
        refine .walk rfl (.run hpc rfl rfl rfl rfl ?_ id)
        cases next with
        | invoke | keep | wait | again => rfl
      · cases hstep
        exact .walk rfl (.abort (.inl hpc))
  | recheckClosing held next =>
      simp only [callStep, hpc] at hstep
      split at hstep
      · cases hstep
        exact .walk rfl (.abort (.inr hpc))
      · next hopen =>
          cases hstep
          exact .walk rfl (.pass hpc hopen)
  | closeFd connection error =>
      simp only [callStep, hpc] at hstep
      cases hstep
      exact .drop hpc
  | waitGuard held =>
      simp only [callStep, hpc] at hstep
      split at hstep
      · cases hstep
        exact .walk rfl (.run hpc rfl rfl rfl rfl rfl id)
      · cases hstep
        exact .walk rfl (.run hpc rfl rfl rfl rfl rfl id)
  | register held =>
      simp only [callStep, hpc] at hstep
      cases hstep
      split
      · next hready => exact .ready hpc hready
      · next hready => exact .register hpc (Option.not_isSome_iff_eq_none.mp hready)
  | woken held ec =>
      simp only [callStep, hpc] at hstep
      cases hstep
      exact .walk rfl (.afterWait hpc _)
  | finish result =>
      simp only [callStep, hpc] at hstep
      cases hstep
      exact .finish hpc
  | accept4 | accept | setCloexec | setNonblocking | waiting | returned =>
      simp only [callStep, hpc] at hstep
      cases hstep

theorem acceptStep_cases {s : Shared} {i : Nat} {c : Call} {errno : Option Nat}
    {effect : Effect} {pc : Pc} (hstep : acceptStep s c errno = some (effect, pc)) :
    CallStep s i c effect pc := by
  unfold acceptStep at hstep
  split at hstep
  next held hpc =>
    split at hstep
    · next hbacklog =>
        cases hstep
        exact .take (by rw [hpc]; rfl) hbacklog (.inl rfl)
    · cases hstep
  next held errno hpc =>
    cases hstep
    split
    · exact .walk rfl (.run hpc rfl rfl rfl rfl rfl id)
    · exact .walk rfl (.afterErrno (.inl hpc) errno)
  next held hpc =>
    split at hstep
    · next hbacklog =>
        cases hstep
        exact .take (by rw [hpc]; rfl) hbacklog (.inr rfl)
    · cases hstep
  next held errno hpc =>
    cases hstep
    exact .walk rfl (.afterErrno (.inr hpc) errno)
  next => cases hstep

theorem setupStep_cases {s : Shared} {i : Nat} {c : Call} {errno : Option Nat}
    {effect : Effect} {pc : Pc} (hstep : setupStep c errno = some (effect, pc)) :
    CallStep s i c effect pc := by
  unfold setupStep at hstep
  split at hstep
  next hpc =>
    cases hstep
    exact .walk rfl (.run hpc rfl rfl rfl rfl rfl id)
  next hpc =>
    cases hstep
    exact .walk rfl (.run hpc rfl rfl rfl rfl rfl id)
  next hpc =>
    cases hstep
    exact .walk rfl (.run hpc rfl rfl rfl rfl rfl fun _ => rfl)
  next hpc =>
    cases hstep
    exact .walk rfl (.run hpc rfl rfl rfl rfl rfl fun _ => rfl)
  next => cases hstep

theorem moves_cases {s t : State} {i : Nat} {f : Call → Option (Effect × Pc)}
    (hcases : ∀ c effect pc, f c = some (effect, pc) → CallStep s.shared i c effect pc)
    (hstep : s.moves i f = some t) :
    ∃ c effect pc, s.calls[i]? = some c ∧ CallStep s.shared i c effect pc ∧
      t = (s.commit i c effect pc).wake (s.replacedBy i effect) .operationAborted := by
  obtain ⟨c, hc, hstep⟩ := Option.bind_eq_some_iff.mp hstep
  obtain ⟨⟨effect, pc⟩, hmove, rfl⟩ := Option.map_eq_some_iff.mp hstep
  exact ⟨c, effect, pc, hc, hcases c effect pc hmove, rfl⟩

end Acceptor

end Iocoro
