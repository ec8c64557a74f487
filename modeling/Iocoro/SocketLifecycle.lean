/-
The life of a native descriptor: `socket_impl_base` and `fd_resource`, with any
number of sockets, resources, operation guards and calls under way.  A resource
is shared; dropping the last reference to it starts its destructor.
-/
import Iocoro.FixedWidth
import Iocoro.Inventory
import Iocoro.Ledger
import Iocoro.TransitionSystem

namespace Iocoro

namespace SocketLifecycle

abbrev Descriptor := Ledger.Handle Nat

/-- Where `~fd_resource` stands; it is `alive` before. -/
inductive Phase where
  | alive
  | releasing
  | removing (d : Descriptor)
  | closing (d : Descriptor)
  | dead
deriving DecidableEq, Repr

/-- `fd_resource`; `fd` is `none` for -1, and `entry` is the entry of the
descriptor that the resource was made for. -/
structure Resource where
  fd : Option Descriptor
  closing : Bool := false
  inflight : Nat := 0
  phase : Phase := .alive
  entry : Nat
deriving DecidableEq, Repr

/-- `fd_resource(ex, fd)`. -/
def Resource.make (d : Descriptor) : Resource := { fd := some d, entry := d.entry }

def Resource.nativeHandle (y : Resource) : Int :=
  match y.fd with
  | some d => d.number
  | none => -1

/-- `operation_guard`.  `resetting` is between the two steps of `reset`. -/
inductive Guard where
  | empty
  | live (res : Nat)
  | resetting (res : Nat)
deriving DecidableEq, Repr

/-- `socket_impl_base`; `lock` is the call that has `lifecycle_mtx_`. -/
structure Socket where
  alive : Bool := true
  res : Option Nat := none
  lock : Option Nat := none
deriving DecidableEq, Repr

def Socket.make : Socket := {}

/-- Whether a descriptor comes from `::socket` in `open` or was given to
`assign`. -/
inductive Origin where
  | opened
  | assigned
deriving DecidableEq, Repr

/-- Where a call stands, with its local variables.  `last` says that `close` runs
in the destructor of the socket, and `snapshot` is an operation that has called
`acquire_resource`. -/
inductive Pc where
  | openLock
  | openSocket
  | setup (origin : Origin) (d : Descriptor) (old : Option Nat)
  | addFd (origin : Origin) (d : Descriptor) (old : Option Nat)
  | setupFailed (origin : Origin) (d : Descriptor) (old : Option Nat)
  | makeResource (origin : Origin) (d : Descriptor) (old : Option Nat)
  | publish (res : Nat) (old : Option Nat)
  | assignTake (d : Descriptor)
  | assignMark (d : Descriptor) (old : Option Nat)
  | closeTake (last : Bool)
  | closeMark (old : Option Nat) (last : Bool)
  | dropOld (old : Option Nat) (last : Bool)
  | dropMember
  | releaseLock
  | releaseCheck (old : Nat)
  | releaseTake (old : Nat)
  | releaseMark (old : Nat)
  | releaseFd (old : Nat)
  | removeFd (d : Descriptor) (old : Nat)
  | releaseReturn (d : Option Descriptor) (old : Nat)
  | acquire
  | snapshot (res : Nat)
  | guardCheck (res : Nat) (current : Option Nat)
  | guardAdd (res current : Nat)
  | acceptSetup (d : Descriptor) (res : Nat)
  | acceptCheck (d : Descriptor) (res : Nat)
  | acceptFailed (d : Descriptor) (res : Nat)
  | acceptReturn (d : Descriptor) (res : Nat)
  | adopt (d : Descriptor)
  | returned
deriving DecidableEq, Repr

structure Call where
  socket : Nat
  pc : Pc
deriving DecidableEq, Repr

/-- `removed` are the descriptors on which `remove_fd_sync` was called, and
`taken` the resources that `close`, `assign` or `release` took out of `res_`. -/
structure State where
  ledger : Ledger Nat := {}
  removed : List Nat := []
  sockets : List Socket := []
  resources : List Resource := []
  guards : List Guard := []
  calls : List Call := []
  taken : List Nat := []

/-- The member functions that a thread may call. -/
inductive Entry where
  | open
  | close
  | release
  | acquire
deriving DecidableEq, Repr

/-- Descriptors outside change hands; a call starts or takes a step, `ok` being
the outcome of what it calls; `wait_ready_impl` and others reset or move their
guards; and a destructor takes a step. -/
inductive Action where
  | outsideOpen (fd : Nat)
  | outsideClose (fd : Nat)
  | newSocket
  | start (socket : Nat) (entry : Entry)
  | assign (socket fd : Nat)
  | destroy (socket : Nat)
  | accept (socket guard fd : Nat) (needsSetup : Bool)
  | socket (call : Nat) (fd : Option Nat)
  | resume (call : Nat) (ok : Bool)
  | newGuard
  | resetGuard (guard : Nat)
  | moveGuard (source target : Nat)
  | destruct (res : Nat)
deriving DecidableEq, Repr

/-! ### References -/

def Socket.refs (x : Socket) : List Nat := x.res.toList

def Guard.refs : Guard → List Nat
  | .empty => []
  | .live r => [r]
  | .resetting r => [r]

/-- The local `shared_ptr`s of a call. -/
def Pc.refs : Pc → List Nat
  | .setup _ _ old => old.toList
  | .addFd _ _ old => old.toList
  | .setupFailed _ _ old => old.toList
  | .makeResource _ _ old => old.toList
  | .publish res old => res :: old.toList
  | .assignMark _ old => old.toList
  | .closeMark old _ => old.toList
  | .dropOld old _ => old.toList
  | .releaseCheck old => [old]
  | .releaseTake old => [old]
  | .releaseMark old => [old]
  | .releaseFd old => [old]
  | .removeFd _ old => [old]
  | .releaseReturn _ old => [old]
  | .snapshot res => [res]
  | .guardCheck res current => res :: current.toList
  | .guardAdd res current => [res, current]
  | .acceptSetup _ res => [res]
  | .acceptCheck _ res => [res]
  | .acceptFailed _ res => [res]
  | .acceptReturn _ res => [res]
  | _ => []

def Call.refs (call : Call) : List Nat := call.pc.refs

/-- `shared_ptr::use_count` of a resource. -/
def State.useCount (s : State) (r : Nat) : Nat :=
  Inventory.held Socket.refs s.sockets r + Inventory.held Call.refs s.calls r +
    Inventory.held Guard.refs s.guards r

/-- The number of live guards on a resource. -/
def State.live (s : State) (r : Nat) : Nat := s.guards.count (.live r)

/-- A reference has been dropped; the destructor of the resource starts with the
last one. -/
def State.reap (s : State) (dropped : Option Nat) : State :=
  match dropped with
  | none => s
  | some r =>
      if s.useCount r = 0 then
        { s with resources := s.resources.modify r fun y =>
          { y with phase := .releasing } }
      else s

/-! ### Steps -/

def State.goto (s : State) (c : Nat) (call : Call) (pc : Pc) : State :=
  { s with calls := s.calls.set c { call with pc } }

def State.setSocket (s : State) (k : Nat) (x : Socket) : State :=
  { s with sockets := s.sockets.set k x }

/-- `mark_closing`. -/
def State.markClosing (s : State) : Option Nat → State
  | none => s
  | some r =>
      { s with resources := s.resources.modify r fun y =>
        { y with closing := true } }

def State.removeFdSync (s : State) (fd : Nat) : State :=
  match s.ledger.table fd with
  | .entry i => { s with removed := i :: s.removed }
  | _ => s

/-- The steps of `open` and `assign` from the descriptor to the resource. -/
def State.setupStep (s : State) (c : Nat) (call : Call) (ok : Bool) :
    Option State :=
  match call.pc with
  | .setup origin d old =>
      some (s.goto c call
        (if ok then .addFd origin d old else .setupFailed origin d old))
  | .addFd origin d old =>
      some (s.goto c call
        (if ok then .makeResource origin d old else .setupFailed origin d old))
  | .setupFailed origin d old =>
      let t := { s with ledger := s.ledger.close d.number }
      match origin with
      | .opened => s.sockets[call.socket]?.map fun x =>
          (t.setSocket call.socket { x with lock := none }).goto c call
            (.dropOld old false)
      | .assigned => some (t.goto c call (.dropOld old false))
  | .makeResource origin d old =>
      let r := s.resources.length
      let t := { s with
        resources := s.resources ++ [Resource.make d] }
      match origin with
      | .opened => s.sockets[call.socket]?.map fun x =>
          ((t.setSocket call.socket { x with res := some r, lock := none }).goto
            c call (.dropOld old false)).reap x.res
      | .assigned => some (t.goto c call (.publish r old))
  | _ => none

def State.openStep (s : State) (c : Nat) (call : Call) : Option State :=
  match call.pc with
  | .openLock => s.sockets[call.socket]?.bind fun x =>
      if x.lock.isSome then none
      else if x.res.isSome then some (s.goto c call .returned)
      else some ((s.setSocket call.socket { x with lock := some c }).goto c call
        .openSocket)
  | _ => none

/-- The result of `::socket`. -/
def State.socketStep (s : State) (c : Nat) (call : Call) :
    Option Nat → Option State
  | none => s.sockets[call.socket]?.map fun x =>
      (s.setSocket call.socket { x with lock := none }).goto c call .returned
  | some fd =>
      if s.ledger.table fd = .free then
        some ({ s with ledger := s.ledger.enter fd }.goto c call
          (.setup .opened (s.ledger.next fd) none))
      else none

/-- The exchange of `res_` and the marking in `assign` and `close`, and the store
of `assign`. -/
def State.exchangeStep (s : State) (c : Nat) (call : Call) : Option State :=
  match call.pc with
  | .assignTake d => s.sockets[call.socket]?.bind fun x =>
      if x.lock.isSome then none
      else some ({ s.setSocket call.socket { x with res := none } with
        taken := x.res.toList ++ s.taken }.goto c call (.assignMark d x.res))
  | .assignMark d old =>
      some ((s.markClosing old).goto c call (.setup .assigned d old))
  | .publish r old => s.sockets[call.socket]?.bind fun x =>
      if x.lock.isSome then none
      else some (((s.setSocket call.socket { x with res := some r }).goto c call
        (.dropOld old false)).reap x.res)
  | .closeTake last => s.sockets[call.socket]?.bind fun x =>
      if x.lock.isSome then none
      else some ({ s.setSocket call.socket { x with res := none } with
        taken := x.res.toList ++ s.taken }.goto c call (.closeMark x.res last))
  | .closeMark old last =>
      some ((s.markClosing old).goto c call (.dropOld old last))
  | .dropOld old last =>
      some ((s.goto c call (if last then .dropMember else .returned)).reap old)
  | .dropMember => s.sockets[call.socket]?.map fun x =>
      ((s.setSocket call.socket { x with res := none }).goto c call
        .returned).reap x.res
  | _ => none

def State.releaseStep (s : State) (c : Nat) (call : Call) : Option State :=
  match call.pc with
  | .releaseLock => s.sockets[call.socket]?.bind fun x =>
      if x.lock.isSome then none
      else
        match x.res with
        | none => some (s.goto c call .returned)
        | some r =>
            some ((s.setSocket call.socket { x with lock := some c }).goto c call
              (.releaseCheck r))
  | .releaseCheck r => s.resources[r]?.bind fun y =>
      if y.inflight ≠ 0 then s.sockets[call.socket]?.map fun x =>
        (s.setSocket call.socket { x with lock := none }).goto c call
          (.dropOld (some r) false)
      else some (s.goto c call (.releaseTake r))
  | .releaseTake r => s.sockets[call.socket]?.map fun x =>
      match x.res with
      | none =>
          ((s.setSocket call.socket { x with lock := none }).goto c call
            .returned).reap (some r)
      | some current =>
          ({ s.setSocket call.socket { x with res := none, lock := none } with
            taken := current :: s.taken }.goto c call
              (.releaseMark current)).reap (some r)
  | .releaseMark r => some ((s.markClosing (some r)).goto c call (.releaseFd r))
  | .releaseFd r => s.resources[r]?.map fun y =>
      { s with resources := s.resources.set r { y with fd := none } }.goto c call
        (match y.fd with
        | some d => .removeFd d r
        | none => .releaseReturn none r)
  | .removeFd d r =>
      some ((s.removeFdSync d.number).goto c call (.releaseReturn (some d) r))
  | .releaseReturn d r =>
      let ledger := match d with
        | some d => s.ledger.handOut d.number
        | none => s.ledger
      some (({ s with ledger }.goto c call .returned).reap (some r))
  | _ => none

/-- The current resource of a socket takes a new guard. -/
def State.accepts (s : State) (r : Nat) : Bool :=
  s.resources[r]?.any fun y => !y.closing && decide (0 ≤ y.nativeHandle)

/-- `acquire_resource` and `make_operation_guard`.  An operation keeps its
snapshot for as long as it likes (`ok` is whether it goes on). -/
def State.guardStep (s : State) (c : Nat) (call : Call) (ok : Bool) :
    Option State :=
  match call.pc with
  | .acquire => s.sockets[call.socket]?.map fun x =>
      match x.res with
      | none => s.goto c call .returned
      | some r => s.goto c call (.snapshot r)
  | .snapshot r =>
      if ok then s.sockets[call.socket]?.bind fun x =>
        if !x.alive || x.lock.isSome then none
        else some ((s.setSocket call.socket { x with lock := some c }).goto c
          call (.guardCheck r x.res))
      else some (s.goto c call (.dropOld (some r) false))
  | .guardCheck r current =>
      if current = some r ∧ s.accepts r then
        some (s.goto c call (.guardAdd r r))
      else s.sockets[call.socket]?.map fun x =>
        ((s.setSocket call.socket { x with lock := none }).goto c call
          (.snapshot r)).reap current
  | .guardAdd r current => s.resources[current]?.bind fun y =>
      s.sockets[call.socket]?.map fun x =>
        { s.setSocket call.socket { x with lock := none } with
          resources := s.resources.set current
            { y with inflight := FixedWidth.incr 32 y.inflight }
          guards := s.guards ++ [Guard.live current] }.goto c call (.snapshot r)
  | _ => none

/-- `acceptor_impl::async_accept` from the accepted descriptor on (`ok` is the
outcome of the set-up, or whether the epoch is current), and the adoption by
`basic_acceptor::async_accept`. -/
def State.acceptStep (s : State) (c : Nat) (call : Call) (ok : Bool) :
    Option State :=
  match call.pc with
  | .acceptSetup d r =>
      some (s.goto c call (if ok then .acceptCheck d r else .acceptFailed d r))
  | .acceptCheck d r => s.resources[r]?.map fun y =>
      s.goto c call
        (if ok ∧ !y.closing then .acceptReturn d r else .acceptFailed d r)
  | .acceptFailed d r =>
      some ({ s with ledger := s.ledger.close d.number }.goto c call
        (.dropOld (some r) false))
  | .acceptReturn d r => some ((s.goto c call (.adopt d)).reap (some r))
  | .adopt d =>
      some ({ s with sockets := s.sockets ++ [Socket.make] }.goto c
        { call with socket := s.sockets.length } (.assignTake d))
  | _ => none

def State.callStep (s : State) (c : Nat) (call : Call) (ok : Bool) :
    Option State :=
  match call.pc with
  | .openLock => s.openStep c call
  | .setup _ _ _ | .addFd _ _ _ | .setupFailed _ _ _ | .makeResource _ _ _ =>
      s.setupStep c call ok
  | .publish _ _ | .assignTake _ | .assignMark _ _ | .closeTake _
  | .closeMark _ _ | .dropOld _ _ | .dropMember => s.exchangeStep c call
  | .releaseLock | .releaseCheck _ | .releaseTake _ | .releaseMark _
  | .releaseFd _ | .removeFd _ _ | .releaseReturn _ _ => s.releaseStep c call
  | .acquire | .snapshot _ | .guardCheck _ _ | .guardAdd _ _ =>
      s.guardStep c call ok
  | .acceptSetup _ _ | .acceptCheck _ _ | .acceptFailed _ _ | .acceptReturn _ _
  | .adopt _ => s.acceptStep c call ok
  | .openSocket | .returned => none

/-- `operation_guard::reset`. -/
def State.resetStep (s : State) (g : Nat) : Guard → Option State
  | .empty => none
  | .live r => s.resources[r]?.map fun y =>
      { s with
        resources := s.resources.set r
          { y with inflight := FixedWidth.decr 32 y.inflight }
        guards := s.guards.set g (.resetting r) }
  | .resetting r =>
      some ({ s with guards := s.guards.set g .empty }.reap (some r))

/-- `~fd_resource`. -/
def State.destructStep (s : State) (r : Nat) (y : Resource) : Option State :=
  match y.phase with
  | .alive | .dead => none
  | .releasing =>
      let phase := match y.fd with
        | some d => .removing d
        | none => .dead
      some { s with resources := s.resources.set r { y with fd := none, phase } }
  | .removing d =>
      some { s.removeFdSync d.number with
        resources := s.resources.set r { y with phase := .closing d } }
  | .closing d =>
      some { s with
        ledger := s.ledger.close d.number
        resources := s.resources.set r { y with phase := .dead } }

def Entry.pc : Entry → Pc
  | .open => .openLock
  | .close => .closeTake false
  | .release => .releaseLock
  | .acquire => .acquire

/-- The call may still use its socket. -/
def Pc.inside : Pc → Bool
  | .dropOld _ last => last
  | .snapshot _ | .returned | .acceptSetup _ _ | .acceptCheck _ _
  | .acceptFailed _ _ | .acceptReturn _ _ | .adopt _ => false
  | _ => true

def State.spawn (s : State) (socket : Nat) (pc : Pc) : State :=
  { s with calls := s.calls ++ [{ socket, pc }] }

def step (s : State) : Action → Option State
  | .outsideOpen fd =>
      if s.ledger.table fd = .free then
        some { s with ledger := s.ledger.outside fd .outside }
      else none
  | .outsideClose fd =>
      if s.ledger.table fd = .outside then
        some { s with ledger := s.ledger.outside fd .free }
      else none
  | .newSocket => some { s with sockets := s.sockets ++ [Socket.make] }
  | .start k entry => s.sockets[k]?.bind fun x =>
      if x.alive then some (s.spawn k entry.pc) else none
  | .assign k fd => s.sockets[k]?.bind fun x =>
      if x.alive ∧ s.ledger.table fd = .outside then
        some ({ s with ledger := s.ledger.enter fd }.spawn k
          (.assignTake (s.ledger.next fd)))
      else none
  | .destroy k => s.sockets[k]?.bind fun x =>
      if x.alive ∧ ∀ call ∈ s.calls, call.socket = k → call.pc.inside = false then
        some ((s.setSocket k { x with alive := false }).spawn k (.closeTake true))
      else none
  | .accept k g fd needsSetup =>
      match s.guards[g]? with
      | some (.live r) =>
          if s.ledger.table fd = .free then
            let d := s.ledger.next fd
            some ({ s with ledger := s.ledger.enter fd }.spawn k
              (if needsSetup then .acceptSetup d r else .acceptCheck d r))
          else none
      | _ => none
  | .socket c fd => s.calls[c]?.bind fun call =>
      if call.pc = .openSocket then s.socketStep c call fd else none
  | .resume c ok => s.calls[c]?.bind fun call => s.callStep c call ok
  | .newGuard => some { s with guards := s.guards ++ [Guard.empty] }
  | .resetGuard g => s.guards[g]?.bind (s.resetStep g)
  | .moveGuard g h =>
      match s.guards[g]? with
      | some (.live r) =>
          if s.guards[h]? = some .empty then
            some { s with guards := (s.guards.set h (.live r)).set g .empty }
          else none
      | _ => none
  | .destruct r => s.resources[r]?.bind (s.destructStep r)

def system : TransitionSystem State Action where
  start := {}
  step := step

end SocketLifecycle

end Iocoro
