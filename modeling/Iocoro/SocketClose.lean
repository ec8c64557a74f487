/-
Closing a socket while waits are under way.  One call of `close` runs against
any number of executions of `wait_ready_impl` on the resource it takes out;
each wait is known by a number and has a fixed direction.
-/
import Mathlib.Logic.Function.Basic
import Iocoro.FdRegistry
import Iocoro.FdResource
import Iocoro.TransitionSystem

namespace Iocoro

namespace SocketClose

/-- Where an execution of `wait_ready_impl` stands. -/
inductive Pc where
  | idle
  | hop
  | register (epoch : Nat)
  | publish (token : Nat) (readyNow : Bool) (epoch : Nat)
  | waiting
  | woken (ok : Bool)
  | returned (ok : Bool)
deriving DecidableEq, Repr

def Pc.publishing : Pc → Bool
  | .publish _ _ _ => true
  | _ => false

/-- The wait is in the part that the reactor runs without a break, from the
read of the cancel epoch to the end of `set_*_handle`. -/
def Pc.registering : Pc → Bool
  | .register _ => true
  | pc => pc.publishing

/-- Where `close` stands; the handles are those it has taken and not yet
cancelled. -/
inductive ClosePc where
  | idle
  | mark
  | sweep
  | dispatchRead (read write : Nat)
  | dispatchWrite (write : Nat)
  | returned
deriving DecidableEq, Repr

/-- `mark_closing` is over. -/
def ClosePc.marked : ClosePc → Bool
  | .idle | .mark => false
  | _ => true

/-- The locked section of `cancel_all_handles` is over. -/
def ClosePc.swept : ClosePc → Bool
  | .idle | .mark | .sweep => false
  | _ => true

/-- `close` is about to cancel the handle of a direction. -/
def ClosePc.Holds : ClosePc → FdEventKind → Nat → Prop
  | .dispatchRead read _, .read, token => read = token
  | .dispatchRead _ write, .write, token => write = token
  | .dispatchWrite write, .write, token => write = token
  | _, _, _ => False

/-- `current` says that `res_` is still the resource, and `turn` which wait the
reactor is registering.  `late` are the waits started after `close` returned,
and `finished` the waits that finished after that, with their results. -/
structure State where
  current : Bool := true
  resource : FdResource
  fds : FdRegistry Nat := {}
  queued : List (FdEventKind × Nat) := []
  turn : Option Nat := none
  pc : Nat → Pc := fun _ => .idle
  close : ClosePc := .idle
  late : List Nat := []
  finished : List (Nat × Bool) := []

inductive Action where
  | start (id : Nat)
  | readEpoch (id : Nat)
  | register (id : Nat)
  | publish (id : Nat)
  | finish (id : Nat)
  | event (canRead canWrite isError : Bool)
  | runQueued (kind : FdEventKind) (token : Nat)
  | elsewhere (other : Nat) (kind : FdEventKind) (op : Nat)
  | close
deriving DecidableEq, Repr

def State.setPc (s : State) (id : Nat) (pc : Pc) : State :=
  { s with pc := Function.update s.pc id pc }

def wakePc (pc : Nat → Pc) (op : Option Nat) (ok : Bool) : Nat → Pc :=
  match op with
  | some id => Function.update pc id (.woken ok)
  | none => pc

/-- The callback of an operation that has left the registry. -/
def State.wake (s : State) (op : Option Nat) (ok : Bool) : State :=
  { s with pc := wakePc s.pc op ok }

/-- A wait comes to its end. -/
def State.finish (s : State) (id : Nat) (ok : Bool) : State :=
  { s.setPc id (.returned ok) with
    finished := if s.close = .returned then (id, ok) :: s.finished
      else s.finished }

/-- `make_operation_guard` succeeds. -/
def State.guard (s : State) : Bool :=
  s.current && !s.resource.closing && decide (0 ≤ s.resource.fd)

variable (direction : Nat → FdEventKind) (fd : Nat)

/-- The cancellation of a token on the reactor thread. -/
def State.cancelToken (s : State) (kind : FdEventKind) (token : Nat) : State :=
  { s with fds := (s.fds.cancel fd kind token).1 }.wake
    (s.fds.cancel fd kind token).2.removed false

/-- `register_fd_read` and `register_fd_write` for a wait. -/
def State.register (s : State) (id epoch : Nat) : State :=
  let registered := s.fds.registerImpl fd (some id) (direction id)
  ({ s with fds := registered.1 }.wake registered.2.replaced false).setPc id
    (.publish registered.2.token registered.2.readyNow.isSome epoch)

/-- Where a wait goes from its registration. -/
def afterPublish (readyNow : Bool) : Pc :=
  if readyNow then .woken true else .waiting

/-- `set_*_handle` and the end of the registration. -/
def State.publish (s : State) (id token : Nat) (readyNow : Bool)
    (epoch : Nat) : State :=
  let published := s.resource.setHandle (direction id) token epoch
  let next := { s with resource := published.1, turn := none }.setPc id
    (afterPublish readyNow)
  if published.2 ∨ token = invalidToken then next
  else next.cancelToken fd (direction id) token

/-- The steps of the waits.  The look at the closing flag is the last step of a
wait. -/
def waiter (s : State) : Action → Option State
  | .start id =>
      if s.pc id = .idle then
        let late := if s.close = .returned then id :: s.late else s.late
        if s.guard then some { s.setPc id .hop with late }
        else some { s.finish id false with late }
      else none
  | .readEpoch id =>
      if s.pc id = .hop ∧ s.turn = none then
        some { s.setPc id (.register (s.resource.cancelEpoch (direction id)))
          with turn := some id }
      else none
  | .register id =>
      match s.pc id with
      | .register epoch => some (s.register direction fd id epoch)
      | _ => none
  | .publish id =>
      match s.pc id with
      | .publish token readyNow epoch =>
          some (s.publish direction fd id token readyNow epoch)
      | _ => none
  | .finish id =>
      match s.pc id with
      | .woken ok => some (s.finish id (ok && !s.resource.closing))
      | _ => none
  | _ => none

/-- The reactor delivers an event of the descriptor, runs a queued
cancellation, or registers an operation of another descriptor. -/
def reactor (s : State) : Action → Option State
  | .event canRead canWrite isError =>
      if s.turn = none then
        let taken := s.fds.takeReady fd canRead canWrite
        some (({ s with fds := taken.1 }.wake taken.2.read (!isError)).wake
          taken.2.write (!isError))
      else none
  | .runQueued kind token =>
      if s.turn = none ∧ (kind, token) ∈ s.queued then
        some ({ s with queued := s.queued.erase (kind, token) }.cancelToken fd
          kind token)
      else none
  | .elsewhere other kind op =>
      if s.turn = none ∧ other ≠ fd then
        some { s with fds := (s.fds.registerImpl other (some op) kind).1 }
      else none
  | _ => none

/-- `event_handle::cancel` away from the reactor thread.  On that thread the
cancellation runs at once, as it does when the queue is served next. -/
def State.enqueue (s : State) (kind : FdEventKind) (token : Nat) : State :=
  if token = invalidToken then s
  else { s with queued := s.queued ++ [(kind, token)] }

/-- The steps of `close`: the exchange of `res_`, `mark_closing`, the locked
section of `cancel_all_handles`, and the two cancellations. -/
def closer (s : State) : Option State :=
  match s.close with
  | .idle => some { s with current := false, close := .mark }
  | .mark => some { s with resource := s.resource.markClosing, close := .sweep }
  | .sweep =>
      let read := s.resource.takeHandle .read
      let write := read.1.takeHandle .write
      some { s with
        resource := write.1, close := .dispatchRead read.2 write.2 }
  | .dispatchRead read write =>
      some { s.enqueue .read read with close := .dispatchWrite write }
  | .dispatchWrite write =>
      some { s.enqueue .write write with close := .returned }
  | .returned => none

def step (s : State) (a : Action) : Option State :=
  match a with
  | .close => closer s
  | .event _ _ _ | .runQueued _ _ | .elsewhere _ _ _ => reactor fd s a
  | _ => waiter direction fd s a

def system : TransitionSystem State Action where
  start := { resource := { fd } }
  step := step direction fd

/-- No registration is given the invalid token. -/
def validToken (s : State) : Action → Bool
  | .register id =>
      s.fds.nextToken != invalidToken ||
        (s.fds.slotAt fd (direction id)).ready
  | _ => true

/-- What a `close` that has returned has achieved: a stored wait is still in
its registration or has its cancellation queued, later waits were refused, and
every wait that finished since has failed. -/
structure Reached (s : State) : Prop where
  stored : s.close = .returned → ∀ kind id,
    (s.fds.slotAt fd kind).op = some id →
      (s.pc id).publishing = true ∨
        (kind, (s.fds.slotAt fd kind).token) ∈ s.queued
  late : ∀ id ∈ s.late, s.pc id = .returned false
  finished : ∀ entry ∈ s.finished, entry.2 = false

/-! ### Invariant -/

/-- The handle of a wait is in place, `close` has taken it, or its cancellation
is queued. -/
def Covered (s : State) (kind : FdEventKind) (token : Nat) : Prop :=
  s.resource.handle kind = token ∨ (kind, token) ∈ s.queued ∨
    s.close.Holds kind token

/-- A stored wait is in the slot of its direction under a valid token, which its
registration knows; once that is over, the wait is covered. -/
structure StoredOk (s : State) (kind : FdEventKind) (id token : Nat) :
    Prop where
  direction : direction id = kind
  valid : token ≠ invalidToken
  pc : (∃ epoch, s.pc id = .publish token false epoch) ∨
    s.pc id = .waiting ∧ Covered s kind token

/-- A registration under way has stored its wait, or found the slot empty and
ready. -/
def PublishOk (s : State) (id token : Nat) (readyNow : Bool) : Prop :=
  (readyNow = false ∧ (s.fds.slotAt fd (direction id)).op = some id ∧
      (s.fds.slotAt fd (direction id)).token = token) ∨
    (readyNow = true ∧ (s.fds.slotAt fd (direction id)).op = none)

structure Waits (s : State) : Prop where
  turn : ∀ id, (s.pc id).registering = true → s.turn = some id
  latch : s.fds.LatchOk
  stored : ∀ kind id, (s.fds.slotAt fd kind).op = some id →
    StoredOk direction s kind id (s.fds.slotAt fd kind).token
  publishing : ∀ id token readyNow epoch,
    s.pc id = .publish token readyNow epoch →
      PublishOk direction fd s id token readyNow

structure Closes (s : State) : Prop where
  current : s.close ≠ .idle → s.current = false
  closing : s.close.marked = true → s.resource.closing = true
  swept : s.close.swept = true → ∀ kind, s.resource.handle kind = invalidToken
  late : ∀ id ∈ s.late, s.pc id = .returned false
  finished : ∀ entry ∈ s.finished, entry.2 = false

structure Inv (s : State) : Prop where
  waits : Waits direction fd s
  closes : Closes s

variable {direction fd}

theorem start_inv : Inv direction fd (system direction fd).start where
  waits := {
    turn := by simp [system, Pc.registering, Pc.publishing]
    latch := FdRegistry.latchOk_empty
    stored := by
      intro kind id hop
      cases kind <;>
        simp [system, FdRegistry.slotAt, FdRegistry.entry,
          FdRegistry.FdOps.slotFor] at hop
    publishing := by simp [system] }
  closes := by constructor <;> simp [system, ClosePc.marked, ClosePc.swept]

theorem Inv.reached {s : State} (hs : Inv direction fd s) : Reached fd s where
  stored := by
    intro hclose kind id hop
    have hstored := hs.waits.stored kind id hop
    have hswept := hs.closes.swept (by rw [hclose]; rfl) kind
    rcases hstored.pc with ⟨epoch, hpublish⟩ | ⟨_, hcovered⟩
    · left
      rw [hpublish]
      rfl
    · right
      rcases hcovered with hhandle | hqueued | hholds
      · rw [hswept] at hhandle
        exact absurd hhandle.symm hstored.valid
      · exact hqueued
      · rw [hclose] at hholds
        exact hholds.elim
  late := hs.closes.late
  finished := hs.closes.finished

/-! ### Steps that leave the slots alone -/

def Pc.active : Pc → Bool
  | .register _ => true
  | .publish _ _ _ => true
  | .waiting => true
  | _ => false

theorem StoredOk.active {s : State} {kind : FdEventKind} {id token : Nat}
    (hs : StoredOk direction s kind id token) : (s.pc id).active = true := by
  rcases hs.pc with ⟨epoch, hpublish⟩ | ⟨hwaiting, _⟩
  · rw [hpublish]
    rfl
  · rw [hwaiting]
    rfl

theorem Pc.active_of_registering {pc : Pc} (hpc : pc.registering = true) :
    pc.active = true := by
  cases pc <;> simp_all [Pc.registering, Pc.publishing, Pc.active]

theorem StoredOk.congr {s t : State} {kind : FdEventKind} {id token : Nat}
    (hs : StoredOk direction s kind id token) (hpc : t.pc id = s.pc id)
    (hcovered : Covered s kind token → Covered t kind token) :
    StoredOk direction t kind id token where
  direction := hs.direction
  valid := hs.valid
  pc := by
    rw [hpc]
    exact hs.pc.imp_right (And.imp_right hcovered)

/-- Steps of other parties: the slots stay, and the waits that move are not in
the registry, before or after. -/
theorem Waits.congr {s t : State} (hs : Waits direction fd s)
    (hslot : ∀ kind, t.fds.slotAt fd kind = s.fds.slotAt fd kind)
    (hlatch : t.fds.LatchOk) (hturn : t.turn = s.turn)
    (hpc : ∀ id, t.pc id = s.pc id ∨
      ((s.pc id).active = false ∧ (t.pc id).active = false))
    (hcovered : ∀ kind token, token ≠ invalidToken → Covered s kind token →
      Covered t kind token) : Waits direction fd t where
  turn := by
    intro id hregistering
    rw [hturn]
    rcases hpc id with hsame | ⟨_, hinactive⟩
    · rw [hsame] at hregistering
      exact hs.turn id hregistering
    · rw [Pc.active_of_registering hregistering] at hinactive
      simp at hinactive
  latch := hlatch
  stored := by
    intro kind id hop
    rw [hslot] at hop ⊢
    have hstored := hs.stored kind id hop
    rcases hpc id with hsame | ⟨hinactive, _⟩
    · exact hstored.congr hsame (hcovered kind _ hstored.valid)
    · rw [hstored.active] at hinactive
      simp at hinactive
  publishing := by
    intro id token readyNow epoch hpublish
    simp only [PublishOk, hslot]
    rcases hpc id with hsame | ⟨_, hinactive⟩
    · rw [hsame] at hpublish
      exact hs.publishing id token readyNow epoch hpublish
    · rw [hpublish] at hinactive
      simp [Pc.active] at hinactive

theorem Closes.congr {s t : State} (hs : Closes s) (hclose : t.close = s.close)
    (hcurrent : t.current = s.current)
    (hclosing : t.resource.closing = s.resource.closing)
    (hhandle : s.resource.closing = true → ∀ kind,
      t.resource.handle kind = s.resource.handle kind)
    (hlate : t.late = s.late) (hfinished : t.finished = s.finished)
    (hpc : ∀ id, s.pc id = .returned false → t.pc id = .returned false) :
    Closes t where
  current := by
    rw [hclose, hcurrent]
    exact hs.current
  closing := by
    rw [hclose, hclosing]
    exact hs.closing
  swept := by
    rw [hclose]
    intro hswept kind
    have hmarked : s.close.marked = true := by
      cases hcase : s.close <;>
        simp_all [ClosePc.swept, ClosePc.marked]
    rw [hhandle (hs.closing hmarked) kind]
    exact hs.swept hswept kind
  late := by
    rw [hlate]
    exact fun id hid => hpc id (hs.late id hid)
  finished := by
    rw [hfinished]
    exact hs.finished

/-! ### The steps of `close` -/

theorem Waits.close {s t : State} (hs : Waits direction fd s)
    (hfds : t.fds = s.fds) (hturn : t.turn = s.turn) (hpc : t.pc = s.pc)
    (hcovered : ∀ kind token, token ≠ invalidToken → Covered s kind token →
      Covered t kind token) : Waits direction fd t := by
  apply hs.congr
  · rw [hfds]
    exact fun _ => rfl
  · rw [hfds]
    exact hs.latch
  · exact hturn
  · rw [hpc]
    exact fun _ => Or.inl rfl
  · exact hcovered

/-- The sweep takes over every handle that is in place. -/
theorem sweep_covered {s : State} (hclose : s.close = .sweep)
    {kind : FdEventKind} {token : Nat} (hs : Covered s kind token) :
    Covered { s with
      resource := ((s.resource.takeHandle .read).1.takeHandle .write).1
      close := .dispatchRead (s.resource.takeHandle .read).2
        ((s.resource.takeHandle .read).1.takeHandle .write).2 } kind token := by
  rcases hs with hhandle | hqueued | hholds
  · right
    right
    cases kind with
    | read => exact hhandle
    | write => exact hhandle
  · exact Or.inr (Or.inl hqueued)
  · rw [hclose] at hholds
    exact hholds.elim

theorem mem_enqueue {s : State} {kind : FdEventKind} {token : Nat}
    (hvalid : token ≠ invalidToken) :
    (kind, token) ∈ (s.enqueue kind token).queued := by
  rw [State.enqueue, if_neg hvalid]
  exact List.mem_append_right _ (List.mem_singleton.mpr rfl)

theorem mem_enqueue_of_mem {s : State} {entry : FdEventKind × Nat}
    (hentry : entry ∈ s.queued) (kind : FdEventKind) (token : Nat) :
    entry ∈ (s.enqueue kind token).queued := by
  unfold State.enqueue
  split
  · exact hentry
  · exact List.mem_append_left _ hentry

@[simp] theorem enqueue_resource (s : State) (kind : FdEventKind)
    (token : Nat) : (s.enqueue kind token).resource = s.resource := by
  unfold State.enqueue
  split <;> rfl

/-- A cancellation by `close` moves a handle it holds to the queue. -/
theorem dispatch_waits {s : State} (hs : Waits direction fd s)
    {kind : FdEventKind} {token : Nat} {next : ClosePc}
    (hheld : ∀ other mine, s.close.Holds other mine →
      (other = kind ∧ mine = token) ∨ next.Holds other mine) :
    Waits direction fd { s.enqueue kind token with close := next } := by
  apply hs.close
  · simp only [State.enqueue]
    split <;> rfl
  · simp only [State.enqueue]
    split <;> rfl
  · simp only [State.enqueue]
    split <;> rfl
  · intro other mine hvalid hcovered
    rcases hcovered with hhandle | hqueued | hholds
    · left
      simpa using hhandle
    · exact Or.inr (Or.inl (mem_enqueue_of_mem hqueued kind token))
    · rcases hheld other mine hholds with ⟨rfl, rfl⟩ | hnext
      · exact Or.inr (Or.inl (mem_enqueue hvalid))
      · exact Or.inr (Or.inr hnext)

theorem dispatch_closes {s : State} (hs : Closes s) (hswept : s.close.swept = true)
    {kind : FdEventKind} {token : Nat} {next : ClosePc} :
    Closes { s.enqueue kind token with close := next } := by
  have hclosing : s.resource.closing = true := by
    apply hs.closing
    cases hcase : s.close <;> simp_all [ClosePc.swept, ClosePc.marked]
  have hopen : s.close ≠ .idle := by
    rintro hidle
    simp [hidle, ClosePc.swept] at hswept
  constructor
  · intro _
    simp only [State.enqueue]
    split
    · exact hs.current hopen
    · exact hs.current hopen
  · intro _
    simpa using hclosing
  · intro _ other
    simpa using hs.swept hswept other
  · simp only [State.enqueue]
    split
    · exact hs.late
    · exact hs.late
  · simp only [State.enqueue]
    split
    · exact hs.finished
    · exact hs.finished

theorem closer_inv {s t : State} (hs : Inv direction fd s)
    (hstep : closer s = some t) : Inv direction fd t := by
  have hkeep : ∀ {t : State}, t.resource.handle = s.resource.handle →
      t.queued = s.queued → (∀ kind token, ¬ s.close.Holds kind token) →
      ∀ kind token, token ≠ invalidToken → Covered s kind token →
        Covered t kind token := by
    rintro t hhandle hqueued hfree kind token _ (hput | hmem | hholds)
    · left
      rw [hhandle]
      exact hput
    · right
      left
      rw [hqueued]
      exact hmem
    · exact absurd hholds (hfree kind token)
  unfold closer at hstep
  split at hstep
  · next hclose =>
      obtain rfl := Option.some.inj hstep
      refine ⟨hs.waits.close rfl rfl rfl (hkeep rfl rfl ?_), ?_⟩
      · simp [hclose, ClosePc.Holds]
      · exact ⟨fun _ => rfl, by simp [ClosePc.marked], by simp [ClosePc.swept],
          hs.closes.late, hs.closes.finished⟩
  · next hclose =>
      obtain rfl := Option.some.inj hstep
      refine ⟨hs.waits.close rfl rfl rfl (hkeep ?_ rfl ?_), ?_⟩
      · funext kind
        simp
      · simp [hclose, ClosePc.Holds]
      · exact ⟨fun _ => hs.closes.current (by simp [hclose]), fun _ => rfl,
          by simp [ClosePc.swept], hs.closes.late, hs.closes.finished⟩
  · next hclose =>
      obtain rfl := Option.some.inj hstep
      refine ⟨hs.waits.close rfl rfl rfl
        (fun _ _ _ => sweep_covered hclose), ?_⟩
      have hclosing := hs.closes.closing (by rw [hclose]; rfl)
      refine ⟨fun _ => hs.closes.current (by simp [hclose]), fun _ => ?_, ?_,
        hs.closes.late, hs.closes.finished⟩
      · simpa [FdResource.takeHandle] using hclosing
      · intro _ kind
        cases kind <;> rfl
  · next read write hclose =>
      obtain rfl := Option.some.inj hstep
      refine ⟨dispatch_waits hs.waits ?_,
        dispatch_closes hs.closes (by rw [hclose]; rfl)⟩
      intro kind token hholds
      rw [hclose] at hholds
      cases kind with
      | read => exact Or.inl ⟨rfl, hholds.symm⟩
      | write => exact Or.inr hholds
  · next write hclose =>
      obtain rfl := Option.some.inj hstep
      refine ⟨dispatch_waits hs.waits ?_,
        dispatch_closes hs.closes (by rw [hclose]; rfl)⟩
      intro kind token hholds
      rw [hclose] at hholds
      cases kind with
      | read => exact hholds.elim
      | write => exact Or.inl ⟨rfl, hholds.symm⟩
  · simp at hstep

/-! ### The steps of the reactor -/

theorem wakePc_of_ne {pc : Nat → Pc} {op : Option Nat} {ok : Bool} {id : Nat}
    (hop : op ≠ some id) : wakePc pc op ok id = pc id := by
  cases op with
  | none => rfl
  | some other =>
      have hne : id ≠ other := by
        rintro rfl
        exact hop rfl
      exact Function.update_of_ne hne _ _

theorem wakePc_cases (pc : Nat → Pc) (op : Option Nat) (ok : Bool) (id : Nat) :
    wakePc pc op ok id = pc id ∨ wakePc pc op ok id = .woken ok := by
  cases op with
  | none => exact Or.inl rfl
  | some other =>
      by_cases hid : id = other
      · subst hid
        exact Or.inr (Function.update_self _ _ _)
      · exact Or.inl (Function.update_of_ne hid _ _)

theorem waits_of_idle {s : State} (hidle : ∀ id, (s.pc id).registering = false)
    (hlatch : s.fds.LatchOk)
    (hstored : ∀ kind id, (s.fds.slotAt fd kind).op = some id →
      StoredOk direction s kind id (s.fds.slotAt fd kind).token) :
    Waits direction fd s where
  turn := by
    intro id hregistering
    rw [hidle] at hregistering
    simp at hregistering
  latch := hlatch
  stored := hstored
  publishing := by
    intro id token readyNow epoch hpublish
    have hregistering := hidle id
    simp [hpublish, Pc.registering, Pc.publishing] at hregistering

/-- Outside a registration the reactor removes operations and wakes their
waits; a slot may lose its cover in the step that empties it. -/
theorem waits_of_removes {s t : State}
    (hidle : ∀ id, (t.pc id).registering = false) (hlatch : t.fds.LatchOk)
    (hfds : FdRegistry.OnlyRemoves s.fds t.fds)
    (hstored : ∀ kind id, (s.fds.slotAt fd kind).op = some id →
      (t.fds.slotAt fd kind).op = some id →
        StoredOk direction s kind id (s.fds.slotAt fd kind).token)
    (hpc : ∀ kind id, (t.fds.slotAt fd kind).op = some id → t.pc id = s.pc id)
    (hcovered : ∀ kind id, (t.fds.slotAt fd kind).op = some id →
      Covered s kind (s.fds.slotAt fd kind).token →
        Covered t kind (s.fds.slotAt fd kind).token) :
    Waits direction fd t := by
  apply waits_of_idle hidle hlatch
  intro kind id hop
  obtain ⟨hold, htoken⟩ := hfds fd kind id hop
  rw [htoken]
  exact (hstored kind id hold hop).congr (hpc kind id hop)
    (hcovered kind id hop)

theorem Waits.idle {s : State} (hs : Waits direction fd s)
    (hturn : s.turn = none) (id : Nat) : (s.pc id).registering = false := by
  by_contra hregistering
  rw [Bool.not_eq_false] at hregistering
  rw [hs.turn id hregistering] at hturn
  simp at hturn

theorem wakePc_registering {pc : Nat → Pc} {id : Nat}
    (hidle : (pc id).registering = false) (op : Option Nat) (ok : Bool) :
    (wakePc pc op ok id).registering = false := by
  rcases wakePc_cases pc op ok id with hsame | hwoken
  · rw [hsame]
    exact hidle
  · rw [hwoken]
    rfl

/-- The cancellation of a token outside a registration.  The wait stored under
the token need not be covered. -/
theorem cancelToken_waits {s : State} {kind : FdEventKind} {token : Nat}
    (hidle : ∀ id, (s.pc id).registering = false) (hlatch : s.fds.LatchOk)
    (hdirection : ∀ other id, (s.fds.slotAt fd other).op = some id →
      direction id = other)
    (hstored : ∀ other id, (s.fds.slotAt fd other).op = some id →
      StoredOk direction s other id (s.fds.slotAt fd other).token ∨
        other = kind ∧ (s.fds.slotAt fd other).token = token) :
    Waits direction fd (s.cancelToken fd kind token) := by
  have hfds := (s.fds.cancel_onlyRemoves fd kind token).1
  refine waits_of_removes ?_ ?_ hfds ?_ ?_ (fun _ _ _ => id)
  · exact fun id => wakePc_registering (hidle id) _ _
  · exact FdRegistry.cancel_latchOk hlatch fd kind token
  · rintro other id hop hkept
    rcases hstored other id hop with hok | ⟨rfl, rfl⟩
    · exact hok
    · exfalso
      have hsome : (s.fds.slotAt (fd : Int).toNat other).op.isSome := by
        rw [Int.toNat_natCast, hop]
        rfl
      have hremoved := s.fds.cancel_of_token (Int.natCast_nonneg fd) hsome
      rw [← hremoved, Int.toNat_natCast] at hsome
      have hnone := FdRegistry.cancel_removed s.fds fd other
        (s.fds.slotAt fd other).token hsome
      rw [Int.toNat_natCast] at hnone
      simp only [State.cancelToken, State.wake] at hkept
      rw [hnone] at hkept
      simp at hkept
  · intro other id hop
    apply wakePc_of_ne
    intro hremoved
    have hslot := FdRegistry.cancel_removed_eq s.fds fd kind token hremoved
    have hnone := FdRegistry.cancel_removed s.fds fd kind token
      (by simp [hremoved])
    rw [Int.toNat_natCast] at hslot hnone
    have hother : other = kind := by
      rw [← hdirection kind id hslot]
      exact (hdirection other id (hfds fd other id hop).1).symm
    subst hother
    simp only [State.cancelToken, State.wake] at hop
    rw [hnone] at hop
    simp at hop

theorem runQueued_waits {s : State} (hs : Waits direction fd s)
    (hturn : s.turn = none) (kind : FdEventKind) (token : Nat) :
    Waits direction fd ({ s with
      queued := s.queued.erase (kind, token) }.cancelToken fd kind token) := by
  refine cancelToken_waits ?_ ?_ ?_ ?_
  · exact hs.idle hturn
  · exact hs.latch
  · exact fun other id hop => (hs.stored other id hop).direction
  · intro other id hop
    by_cases hmine : other = kind ∧ (s.fds.slotAt fd other).token = token
    · exact Or.inr hmine
    · left
      refine (hs.stored other id hop).congr rfl ?_
      rintro (hhandle | hqueued | hholds)
      · exact Or.inl hhandle
      · refine Or.inr (Or.inl ((List.mem_erase_of_ne ?_).mpr hqueued))
        simpa [Prod.ext_iff] using hmine
      · exact Or.inr (Or.inr hholds)

theorem event_waits {s : State} (hs : Waits direction fd s)
    (hturn : s.turn = none) (canRead canWrite ok : Bool) :
    Waits direction fd (({ s with
        fds := (s.fds.takeReady fd canRead canWrite).1 }.wake
          (s.fds.takeReady fd canRead canWrite).2.read ok).wake
          (s.fds.takeReady fd canRead canWrite).2.write ok) := by
  have hfds := (s.fds.takeReady_onlyRemoves fd canRead canWrite).1
  -- A wait that is still stored is not the one the event takes in either slot.
  have hkept : ∀ kind id,
      ((s.fds.takeReady fd canRead canWrite).1.slotAt fd kind).op = some id →
      ∀ taken, (s.fds.takeReady fd canRead canWrite).2.get taken ≠ some id := by
    intro kind id hop taken htaken
    have hcases := s.fds.takeReady_slotAt fd canRead canWrite taken
    rw [Int.toNat_natCast] at hcases
    rcases hcases with ⟨hget, hnone⟩ | ⟨hget, _⟩
    · rw [htaken] at hget
      have htakenDir := (hs.stored taken id hget.symm).direction
      have hkindDir := (hs.stored kind id (hfds fd kind id hop).1).direction
      rw [← htakenDir, hkindDir, hop] at hnone
      simp at hnone
    · rw [hget] at htaken
      simp at htaken
  refine waits_of_removes ?_ ?_ hfds ?_ ?_ (fun _ _ _ => id)
  · exact fun id =>
      wakePc_registering (wakePc_registering (hs.idle hturn id) _ _) _ _
  · exact FdRegistry.takeReady_latchOk hs.latch fd canRead canWrite
  · exact fun kind id hop _ => hs.stored kind id hop
  · intro kind id hop
    exact (wakePc_of_ne (hkept kind id hop .write)).trans
      (wakePc_of_ne (hkept kind id hop .read))

theorem elsewhere_waits {s : State} (hs : Waits direction fd s) {other : Nat}
    (hother : other ≠ fd) (kind : FdEventKind) (op : Nat) :
    Waits direction fd { s with
      fds := (s.fds.registerImpl other (some op) kind).1 } := by
  apply hs.congr
  · intro mine
    exact s.fds.registerImpl_slotAt_ne (Int.natCast_nonneg other) op kind mine
      (by simpa using hother.symm)
  · exact FdRegistry.registerImpl_latchOk hs.latch (Int.natCast_nonneg other)
      op kind
  · rfl
  · exact fun _ => Or.inl rfl
  · exact fun _ _ _ => id

theorem Waits.not_stored {s : State} (hs : Waits direction fd s) {id : Nat}
    (hpc : (s.pc id).active = false) (kind : FdEventKind) :
    (s.fds.slotAt fd kind).op ≠ some id := by
  intro hop
  rw [(hs.stored kind id hop).active] at hpc
  simp at hpc

theorem takeReady_ne {s : State} (hs : Waits direction fd s) {id : Nat}
    (hpc : (s.pc id).active = false) (canRead canWrite : Bool)
    (kind : FdEventKind) :
    (s.fds.takeReady fd canRead canWrite).2.get kind ≠ some id := by
  have hcases := s.fds.takeReady_slotAt fd canRead canWrite kind
  rw [Int.toNat_natCast] at hcases
  rcases hcases with ⟨hget, _⟩ | ⟨hget, _⟩
  · rw [hget]
    exact hs.not_stored hpc kind
  · simp [hget]

theorem cancel_ne {s : State} {id : Nat} {kind : FdEventKind}
    (hslot : (s.fds.slotAt fd kind).op ≠ some id) (token : Nat) :
    (s.fds.cancel fd kind token).2.removed ≠ some id := by
  intro hremoved
  have hop := FdRegistry.cancel_removed_eq s.fds fd kind token hremoved
  rw [Int.toNat_natCast] at hop
  exact hslot hop

theorem reactor_inv {s t : State} {a : Action} (hs : Inv direction fd s)
    (hstep : reactor fd s a = some t) : Inv direction fd t := by
  unfold reactor at hstep
  split at hstep
  · next canRead canWrite isError =>
      rw [Option.ite_none_right_eq_some] at hstep
      obtain ⟨hturn, hstep⟩ := hstep
      obtain rfl := Option.some.inj hstep
      refine ⟨event_waits hs.waits hturn _ _ _, ?_⟩
      refine hs.closes.congr rfl rfl rfl (fun _ _ => rfl) rfl rfl ?_
      intro id hpc
      have hactive : (s.pc id).active = false := by
        rw [hpc]
        rfl
      calc
        _ = wakePc s.pc _ _ id :=
          wakePc_of_ne (takeReady_ne hs.waits hactive canRead canWrite .write)
        _ = s.pc id :=
          wakePc_of_ne (takeReady_ne hs.waits hactive canRead canWrite .read)
        _ = .returned false := hpc
  · next kind token =>
      rw [Option.ite_none_right_eq_some] at hstep
      obtain ⟨⟨hturn, _⟩, hstep⟩ := hstep
      obtain rfl := Option.some.inj hstep
      refine ⟨runQueued_waits hs.waits hturn kind token, ?_⟩
      refine hs.closes.congr rfl rfl rfl (fun _ _ => rfl) rfl rfl ?_
      intro id hpc
      have hslot : (s.fds.slotAt fd kind).op ≠ some id :=
        hs.waits.not_stored (by rw [hpc]; rfl) kind
      exact (wakePc_of_ne (cancel_ne hslot token)).trans hpc
  · next other kind op =>
      rw [Option.ite_none_right_eq_some] at hstep
      obtain ⟨⟨_, hother⟩, hstep⟩ := hstep
      obtain rfl := Option.some.inj hstep
      exact ⟨elsewhere_waits hs.waits hother kind op,
        hs.closes.congr rfl rfl rfl (fun _ _ => rfl) rfl rfl (fun _ => id)⟩
  · simp at hstep

/-! ### The steps of the waits -/

theorem setPc_pc (s : State) (id : Nat) (pc : Pc) (other : Nat) :
    (s.setPc id pc).pc other = if other = id then pc else s.pc other :=
  Function.update_apply _ _ _ _

/-- A wait that has returned stays where it is when another one moves. -/
theorem update_of_returned {pc : Nat → Pc} {id other : Nat} {next : Pc}
    (hid : pc id ≠ .returned false) (hother : pc other = .returned false) :
    Function.update pc id next other = .returned false := by
  have hne : other ≠ id := by
    rintro rfl
    exact hid hother
  rw [Function.update_of_ne hne]
  exact hother

/-- A wait outside the registry moves to a place outside the registry. -/
theorem setPc_waits {s t : State} (hs : Waits direction fd s) {id : Nat}
    {pc : Pc} (hbefore : (s.pc id).active = false) (hafter : pc.active = false)
    (hpc : t.pc = (s.setPc id pc).pc) (hfds : t.fds = s.fds)
    (hturn : t.turn = s.turn) (hresource : t.resource = s.resource)
    (hqueued : t.queued = s.queued) (hclose : t.close = s.close) :
    Waits direction fd t := by
  apply hs.congr
  · rw [hfds]
    exact fun _ => rfl
  · rw [hfds]
    exact hs.latch
  · exact hturn
  · intro other
    rw [hpc, setPc_pc]
    split
    · next hother =>
        subst hother
        exact Or.inr ⟨hbefore, hafter⟩
    · exact Or.inl rfl
  · intro kind token _ hcovered
    simp only [Covered, hresource, hqueued, hclose]
    exact hcovered

/-- A wait that ends with a failure, or before `close` has returned. -/
theorem finish_closes {s : State} (hs : Closes s) {id : Nat} {ok : Bool}
    (hpc : s.pc id ≠ .returned false)
    (hok : s.resource.closing = true → ok = false) :
    Closes (s.finish id ok) where
  current := hs.current
  closing := hs.closing
  swept := hs.swept
  late := by
    intro other hother
    exact update_of_returned hpc (hs.late other hother)
  finished := by
    intro entry hentry
    simp only [State.finish] at hentry
    split at hentry
    · next hclose =>
        rcases List.mem_cons.mp hentry with rfl | hold
        · exact hok (hs.closing (by rw [hclose]; rfl))
        · exact hs.finished entry hold
    · exact hs.finished entry hentry

theorem start_step_inv {s t : State} (hs : Inv direction fd s) {id : Nat}
    (hstep : waiter direction fd s (.start id) = some t) :
    Inv direction fd t := by
  simp only [waiter, Option.ite_none_right_eq_some] at hstep
  obtain ⟨hidle, hstep⟩ := hstep
  have hbefore : (s.pc id).active = false := by
    rw [hidle]
    rfl
  split at hstep
  · next hguard =>
      obtain rfl := Option.some.inj hstep
      refine ⟨setPc_waits hs.waits hbefore rfl rfl rfl rfl rfl rfl rfl, ?_⟩
      -- The guard holds, so `close` has not begun and no wait is late.
      simp only [State.guard, Bool.and_eq_true] at hguard
      have hopen : s.close = .idle := by
        by_contra hclose
        rw [hs.closes.current hclose] at hguard
        simp at hguard
      simp only [hopen, reduceCtorEq, ↓reduceIte]
      exact hs.closes.congr rfl rfl rfl (fun _ _ => rfl) rfl rfl
        (fun other => update_of_returned (by simp [hidle]))
  · obtain rfl := Option.some.inj hstep
    refine ⟨setPc_waits hs.waits hbefore rfl rfl rfl rfl rfl rfl rfl, ?_⟩
    have hfinish : Closes (s.finish id false) :=
      finish_closes hs.closes (by simp [hidle]) (fun _ => rfl)
    refine ⟨hfinish.current, hfinish.closing, hfinish.swept, ?_,
      hfinish.finished⟩
    intro other hother
    simp only at hother ⊢
    split at hother
    · rcases List.mem_cons.mp hother with rfl | hold
      · simp [State.finish, setPc_pc]
      · exact hfinish.late other hold
    · exact hfinish.late other hother

theorem finish_step_inv {s t : State} (hs : Inv direction fd s) {id : Nat}
    (hstep : waiter direction fd s (.finish id) = some t) :
    Inv direction fd t := by
  simp only [waiter] at hstep
  split at hstep
  · next ok hpc =>
      obtain rfl := Option.some.inj hstep
      refine ⟨setPc_waits hs.waits (by rw [hpc]; rfl) rfl rfl rfl rfl rfl rfl
        rfl, finish_closes hs.closes (by simp [hpc]) ?_⟩
      intro hclosing
      simp [hclosing]
  · simp at hstep

theorem readEpoch_inv {s t : State} (hs : Inv direction fd s) {id : Nat}
    (hstep : waiter direction fd s (.readEpoch id) = some t) :
    Inv direction fd t := by
  simp only [waiter, Option.ite_none_right_eq_some] at hstep
  obtain ⟨⟨hhop, hturn⟩, hstep⟩ := hstep
  obtain rfl := Option.some.inj hstep
  have hkeep : ∀ other, other ≠ id → (s.setPc id (.register
      (s.resource.cancelEpoch (direction id)))).pc other = s.pc other := by
    intro other hne
    rw [setPc_pc, if_neg hne]
  refine ⟨⟨?_, hs.waits.latch, ?_, ?_⟩, ?_⟩
  · intro other hregistering
    by_cases hother : other = id
    · rw [hother]
    · simp only [hkeep other hother] at hregistering
      rw [hs.waits.idle hturn] at hregistering
      simp at hregistering
  · intro kind other hop
    have hstored := hs.waits.stored kind other hop
    have hne : other ≠ id := by
      rintro rfl
      have hactive := hstored.active
      simp [hhop, Pc.active] at hactive
    exact hstored.congr (hkeep other hne) (fun h => h)
  · intro other token readyNow epoch hpublish
    by_cases hother : other = id
    · simp [setPc_pc, hother] at hpublish
    · simp only [hkeep other hother] at hpublish
      exact hs.waits.publishing other token readyNow epoch hpublish
  · exact hs.closes.congr rfl rfl rfl (fun _ _ => rfl) rfl rfl
      (fun other => update_of_returned (by simp [hhop]))

/-- The state after a registration: a new slot of the direction, the replaced
wait woken, and the registering wait about to publish. -/
theorem registered_inv {s t : State} (hs : Inv direction fd s) {id epoch : Nat}
    (hregister : s.pc id = .register epoch) {token : Nat} {readyNow : Bool}
    {replaced : Option Nat}
    (hreplaced : replaced = none ∨
      replaced = (s.fds.slotAt fd (direction id)).op)
    (hpc : t.pc = Function.update (wakePc s.pc replaced false) id
      (.publish token readyNow epoch))
    (hlatch : t.fds.LatchOk)
    (hother : ∀ kind, kind ≠ direction id →
      t.fds.slotAt fd kind = s.fds.slotAt fd kind)
    (hmine : ∀ other, (t.fds.slotAt fd (direction id)).op = some other →
      other = id ∧ readyNow = false ∧ token ≠ invalidToken ∧
        (t.fds.slotAt fd (direction id)).token = token)
    (hpublish : PublishOk direction fd t id token readyNow)
    (hturn : t.turn = s.turn) (hresource : t.resource = s.resource)
    (hqueued : t.queued = s.queued) (hclose : t.close = s.close)
    (hcurrent : t.current = s.current) (hlate : t.late = s.late)
    (hfinished : t.finished = s.finished) : Inv direction fd t := by
  have howner : s.turn = some id :=
    hs.waits.turn id (by rw [hregister]; rfl)
  have hnew : t.pc id = .publish token readyNow epoch := by
    rw [hpc]
    exact Function.update_self _ _ _
  have hkeep : ∀ other, other ≠ id → replaced ≠ some other →
      t.pc other = s.pc other := by
    intro other hne hnot
    rw [hpc, Function.update_of_ne hne]
    exact wakePc_of_ne hnot
  have hcases : ∀ other, other ≠ id →
      t.pc other = s.pc other ∨ t.pc other = .woken false := by
    intro other hne
    rw [hpc, Function.update_of_ne hne]
    exact wakePc_cases _ _ _ _
  have hsole : ∀ other, (t.pc other).registering = true → other = id := by
    intro other hregistering
    by_contra hne
    rcases hcases other hne with hsame | hwoken
    · rw [hsame] at hregistering
      have hturn := hs.waits.turn other hregistering
      rw [howner, Option.some.injEq] at hturn
      exact hne hturn.symm
    · rw [hwoken] at hregistering
      simp [Pc.registering, Pc.publishing] at hregistering
  refine ⟨⟨?_, hlatch, ?_, ?_⟩, ?_⟩
  · intro other hregistering
    rw [hsole other hregistering, hturn]
    exact howner
  · intro kind other hop
    by_cases hkind : kind = direction id
    · subst hkind
      obtain ⟨rfl, rfl, hvalid, htoken⟩ := hmine other hop
      rw [htoken]
      exact ⟨rfl, hvalid, Or.inl ⟨epoch, hnew⟩⟩
    · rw [hother kind hkind] at hop ⊢
      have hstored := hs.waits.stored kind other hop
      have hne : other ≠ id := by
        rintro rfl
        exact hkind hstored.direction.symm
      have hnot : replaced ≠ some other := by
        rintro hsome
        rcases hreplaced with hnone | hslot
        · simp [hnone] at hsome
        · rw [hslot] at hsome
          have hdirection := (hs.waits.stored _ other hsome).direction
          exact hkind (hstored.direction.symm.trans hdirection)
      refine hstored.congr (hkeep other hne hnot) ?_
      simp only [Covered, hresource, hqueued, hclose]
      exact fun hcovered => hcovered
  · intro other mine ready mineEpoch hpublishing
    obtain rfl := hsole other (by rw [hpublishing]; rfl)
    rw [hnew, Pc.publish.injEq] at hpublishing
    obtain ⟨rfl, rfl, rfl⟩ := hpublishing
    exact hpublish
  · refine hs.closes.congr hclose hcurrent (by rw [hresource])
      (fun _ _ => by rw [hresource]) hlate hfinished ?_
    intro other hreturned
    have hne : other ≠ id := by
      rintro rfl
      simp [hregister] at hreturned
    refine (hkeep other hne ?_).trans hreturned
    intro hsome
    rcases hreplaced with hnone | hslot
    · simp [hnone] at hsome
    · refine hs.waits.not_stored ?_ (direction id) (hslot.symm.trans hsome)
      rw [hreturned]
      rfl

theorem register_inv {s t : State} (hs : Inv direction fd s) {id : Nat}
    (hvalid : validToken direction fd s (.register id) = true)
    (hstep : waiter direction fd s (.register id) = some t) :
    Inv direction fd t := by
  simp only [waiter] at hstep
  split at hstep
  · next epoch hpc =>
      obtain rfl := Option.some.inj hstep
      have hfd : (0 : Int) ≤ fd := Int.natCast_nonneg fd
      have hresult := s.fds.registerImpl_result hfd id (direction id)
      have hlatch := FdRegistry.registerImpl_latchOk hs.waits.latch hfd id
        (direction id)
      have hother : ∀ kind, kind ≠ direction id →
          (s.fds.registerImpl fd (some id) (direction id)).1.slotAt fd kind =
            s.fds.slotAt fd kind :=
        fun kind hkind => s.fds.registerImpl_slotAt_other hfd id hkind fd
      rw [Int.toNat_natCast] at hresult
      cases hready : (s.fds.slotAt fd (direction id)).ready with
      | true =>
          rw [if_pos hready] at hresult
          have hempty := hs.waits.latch fd (direction id) hready
          have honly := (s.fds.registerImpl_ready_onlyRemoves hfd id
            (by simpa using hready)).1
          have hnone : ((s.fds.registerImpl fd (some id)
              (direction id)).1.slotAt fd (direction id)).op = none := by
            by_contra hsome
            obtain ⟨other, hop⟩ := Option.ne_none_iff_exists'.mp hsome
            have hold := (honly fd (direction id) other hop).1
            rw [hempty] at hold
            simp at hold
          refine registered_inv hs hpc (Or.inl ?_) rfl hlatch hother ?_ ?_ rfl
            rfl rfl rfl rfl rfl rfl
          · rw [hresult]
          · intro other hop
            change ((s.fds.registerImpl fd (some id)
              (direction id)).1.slotAt fd (direction id)).op = some other at hop
            rw [hnone] at hop
            simp at hop
          · exact Or.inr ⟨by rw [hresult]; rfl, hnone⟩
      | false =>
          rw [if_neg (by simp [hready])] at hresult
          have hslot := (s.fds.registerImpl_slotAt hfd id (direction id)
            (by simpa using hready)).2
          rw [Int.toNat_natCast] at hslot
          have hnext : s.fds.nextToken ≠ invalidToken := by
            simpa [validToken, hready] using hvalid
          refine registered_inv hs hpc (Or.inr ?_) rfl hlatch hother ?_ ?_ rfl
            rfl rfl rfl rfl rfl rfl
          · rw [hresult]
          · intro other hop
            change ((s.fds.registerImpl fd (some id)
              (direction id)).1.slotAt fd (direction id)).op = some other at hop
            rw [hslot] at hop
            refine ⟨(Option.some.inj hop).symm, by rw [hresult]; rfl, ?_, ?_⟩
            · rw [hresult]
              exact hnext
            · rw [hresult]
              exact congrArg FdRegistry.Slot.token hslot
          · refine Or.inl ⟨by rw [hresult]; rfl, ?_, ?_⟩
            · exact congrArg FdRegistry.Slot.op hslot
            · rw [hresult]
              exact congrArg FdRegistry.Slot.token hslot
  · simp at hstep

/-- After `set_*_handle` a stored wait is as before, or it is the one that was
registering. -/
theorem published_stored {s t : State} (hs : Waits direction fd s)
    {id token epoch : Nat} {readyNow : Bool} {next : Pc}
    (hpublish : s.pc id = .publish token readyNow epoch)
    (hpc : t.pc = Function.update s.pc id next) (hfds : t.fds = s.fds)
    (hhandle : ∀ kind, kind ≠ direction id →
      t.resource.handle kind = s.resource.handle kind)
    (hqueued : t.queued = s.queued) (hclose : t.close = s.close)
    (kind : FdEventKind) (other : Nat)
    (hop : (t.fds.slotAt fd kind).op = some other) :
    StoredOk direction t kind other (t.fds.slotAt fd kind).token ∨
      kind = direction id ∧ other = id ∧ readyNow = false ∧
        (t.fds.slotAt fd kind).token = token ∧ token ≠ invalidToken := by
  rw [hfds] at hop ⊢
  have hstored := hs.stored kind other hop
  have hpublishing := hs.publishing id token readyNow epoch hpublish
  by_cases hkind : kind = direction id
  · right
    subst hkind
    rcases hpublishing with ⟨hready, hmine, htoken⟩ | ⟨_, hnone⟩
    · rw [hop, Option.some.injEq] at hmine
      have hvalid := hstored.valid
      rw [htoken] at hvalid
      exact ⟨rfl, hmine, hready, htoken, hvalid⟩
    · rw [hop] at hnone
      simp at hnone
  · left
    have hne : other ≠ id := by
      rintro rfl
      exact hkind hstored.direction.symm
    refine hstored.congr ?_ ?_
    · rw [hpc, Function.update_of_ne hne]
    · simp only [Covered, hhandle kind hkind, hqueued, hclose]
      exact fun hcovered => hcovered

/-- Once the registering wait has moved on, no wait is registering. -/
theorem Waits.idle_of_update {s : State} (hs : Waits direction fd s) {id : Nat}
    (hid : (s.pc id).registering = true) {next : Pc}
    (hnext : next.registering = false) (other : Nat) :
    (Function.update s.pc id next other).registering = false := by
  by_cases hother : other = id
  · rw [hother, Function.update_self]
    exact hnext
  · rw [Function.update_of_ne hother]
    by_contra hregistering
    rw [Bool.not_eq_false] at hregistering
    have hturn := hs.turn other hregistering
    rw [hs.turn id hid, Option.some.injEq] at hturn
    exact hother hturn.symm

theorem afterPublish_registering (readyNow : Bool) :
    (afterPublish readyNow).registering = false := by
  cases readyNow <;> rfl

/-- The handle is accepted: it covers the wait. -/
theorem accept_inv {s : State} (hs : Inv direction fd s)
    {id token epoch : Nat} {readyNow : Bool}
    (hpc : s.pc id = .publish token readyNow epoch)
    (hclosing : s.resource.closing = false) :
    Inv direction fd (State.setPc { s with
      resource := s.resource.putHandle token (direction id)
      turn := none } id (afterPublish readyNow)) := by
  have hregistering : (s.pc id).registering = true := by
    rw [hpc]
    rfl
  have hhandle : ∀ kind, kind ≠ direction id →
      (s.resource.putHandle token (direction id)).handle kind =
        s.resource.handle kind := by
    intro kind hkind
    rw [FdResource.handle_putHandle, if_neg hkind]
  refine ⟨waits_of_idle
    (hs.waits.idle_of_update hregistering (afterPublish_registering readyNow))
    hs.waits.latch ?_, ?_⟩
  · intro kind other hop
    rcases published_stored (t := State.setPc { s with
        resource := s.resource.putHandle token (direction id)
        turn := none } id (afterPublish readyNow))
      hs.waits hpc rfl rfl hhandle rfl rfl kind other hop with
      hok | ⟨rfl, rfl, hready, htoken, hvalid⟩
    · exact hok
    · rw [htoken]
      refine ⟨rfl, hvalid, Or.inr ⟨?_, Or.inl ?_⟩⟩
      · simp [State.setPc, afterPublish, hready]
      · simp [State.setPc]
  · refine hs.closes.congr rfl rfl (by simp [State.setPc]) ?_ rfl rfl
      (fun other => update_of_returned (by simp [hpc]))
    intro htrue
    rw [hclosing] at htrue
    simp at htrue

/-- The handle is rejected: the wait is cancelled on the spot. -/
theorem reject_inv {s : State} (hs : Inv direction fd s)
    {id token epoch : Nat} {readyNow : Bool}
    (hpc : s.pc id = .publish token readyNow epoch) :
    Inv direction fd
      (if token = invalidToken then
        State.setPc { s with turn := none } id (afterPublish readyNow)
      else
        (State.setPc { s with turn := none } id
          (afterPublish readyNow)).cancelToken fd (direction id) token) := by
  have hregistering : (s.pc id).registering = true := by
    rw [hpc]
    rfl
  have hidle := hs.waits.idle_of_update hregistering
    (afterPublish_registering readyNow)
  have hreturned : ∀ other, s.pc other = .returned false →
      Function.update s.pc id (afterPublish readyNow) other =
        .returned false :=
    fun other => update_of_returned (by simp [hpc])
  have hstored := published_stored
    (t := State.setPc { s with turn := none } id (afterPublish readyNow))
    hs.waits hpc rfl rfl (fun _ _ => rfl) rfl rfl
  split
  · next hinvalid =>
      refine ⟨waits_of_idle hidle hs.waits.latch ?_,
        hs.closes.congr rfl rfl rfl (fun _ _ => rfl) rfl rfl hreturned⟩
      intro kind other hop
      rcases hstored kind other hop with hok | ⟨_, _, _, _, hvalid⟩
      · exact hok
      · exact absurd hinvalid hvalid
  · refine ⟨cancelToken_waits hidle hs.waits.latch ?_ ?_, ?_⟩
    · exact fun kind other hop => (hs.waits.stored kind other hop).direction
    · intro kind other hop
      rcases hstored kind other hop with hok | ⟨hkind, _, _, htoken, _⟩
      · exact Or.inl hok
      · exact Or.inr ⟨hkind, htoken⟩
    · refine hs.closes.congr rfl rfl rfl (fun _ _ => rfl) rfl rfl ?_
      intro other hother
      have hslot : (s.fds.slotAt fd (direction id)).op ≠ some other :=
        hs.waits.not_stored (by rw [hother]; rfl) (direction id)
      exact (wakePc_of_ne (cancel_ne hslot token)).trans
        (hreturned other hother)

theorem publish_inv {s t : State} (hs : Inv direction fd s) {id : Nat}
    (hstep : waiter direction fd s (.publish id) = some t) :
    Inv direction fd t := by
  simp only [waiter] at hstep
  split at hstep
  · next token readyNow epoch hpc =>
      obtain rfl := Option.some.inj hstep
      unfold State.publish
      rcases s.resource.setHandle_cases (direction id) token epoch with
        ⟨hclosing, haccept⟩ | hreject
      · simp only [haccept, true_or, ↓reduceIte]
        exact accept_inv hs hpc hclosing
      · simp only [hreject, Bool.false_eq_true, false_or]
        exact reject_inv hs hpc
  · simp at hstep

theorem step_inv {s t : State} {a : Action} (hs : Inv direction fd s)
    (hvalid : validToken direction fd s a = true)
    (hstep : step direction fd s a = some t) : Inv direction fd t := by
  cases a with
  | start id => exact start_step_inv hs hstep
  | readEpoch id => exact readEpoch_inv hs hstep
  | register id => exact register_inv hs hvalid hstep
  | publish id => exact publish_inv hs hstep
  | finish id => exact finish_step_inv hs hstep
  | event canRead canWrite isError =>
      exact reactor_inv (a := .event canRead canWrite isError) hs hstep
  | runQueued kind token =>
      exact reactor_inv (a := .runQueued kind token) hs hstep
  | elsewhere other kind op =>
      exact reactor_inv (a := .elsewhere other kind op) hs hstep
  | close => exact closer_inv hs hstep

/-- A wait is stored and published, and `close` runs to its end. -/
def closeWhileWaiting : List Action :=
  [.start 0, .readEpoch 0, .register 0, .publish 0, .start 1, .close, .close,
    .close, .close, .close, .start 2]

/-- Before `close`, after `n` waits for reading that were each replaced by the
next. -/
structure Replaced (n : Nat) (s : State) : Prop where
  current : s.current = true
  closing : s.resource.closing = false
  fd : 0 ≤ s.resource.fd
  writeHandle : s.resource.writeHandle = invalidToken
  turn : s.turn = none
  queued : s.queued = []
  close : s.close = .idle
  idle : ∀ id, n ≤ id → s.pc id = .idle
  ready : (s.fds.slotAt 0 .read).ready = false
  stored : ∀ id, (s.fds.slotAt 0 .read).op = some id → id < n
  nextToken : s.fds.nextToken = FixedWidth.truncate 64 (n + 1)

/-- The wait with number `n` is stored under the token it was given, and its
handle is in place. -/
structure Stored (n : Nat) (s : State) : Prop where
  op : (s.fds.slotAt 0 .read).op = some n
  handle : s.resource.readHandle = FixedWidth.truncate 64 (n + 1)
  pc : s.pc n = .waiting

/-- One more wait takes the next token. -/
theorem Replaced.next {n : Nat} {s : State} (hs : Replaced n s)
    (hreach : (system (fun _ => .read) 0).Reachable s) :
    ∃ t, (system (fun _ => .read) 0).Reachable t ∧ Replaced (n + 1) t ∧
      Stored n t := by
  have hresult := s.fds.registerImpl_result le_rfl n .read
  have hslot := (s.fds.registerImpl_slotAt le_rfl n .read hs.ready).2
  have hnext := s.fds.registerImpl_nextToken le_rfl n .read hs.ready
  rw [Int.toNat_zero] at hresult hslot
  rw [if_neg (by simp [hs.ready])] at hresult
  have haccept : ∀ token, s.resource.setHandle .read token
      (s.resource.cancelEpoch .read) =
        (s.resource.putHandle token .read, true) := by
    intro token
    simp [FdResource.setHandle, hs.closing, hs.fd]
  have hexec : (system (fun _ => .read) 0).exec s
      [.start n, .readEpoch n, .register n, .publish n] = some { s with
        fds := (s.fds.registerImpl 0 (some n) .read).1
        resource := s.resource.putHandle s.fds.nextToken .read
        pc := Function.update (wakePc (Function.update s.pc n
          (.register (s.resource.cancelEpoch .read)))
          (s.fds.slotAt 0 .read).op false) n .waiting } := by
    simp [TransitionSystem.exec, system, step, waiter, State.guard,
      hs.idle n le_rfl, hs.current, hs.closing, hs.fd, hs.close, hs.turn,
      State.setPc, State.register, State.wake, State.publish, afterPublish,
      hresult, haccept]
  refine ⟨_, hreach.exec hexec, ?_, ?_⟩
  · constructor
    · exact hs.current
    · simpa using hs.closing
    · simpa using hs.fd
    · exact hs.writeHandle
    · exact hs.turn
    · exact hs.queued
    · exact hs.close
    · intro id hid
      have hne : id ≠ n := by omega
      have hnot : (s.fds.slotAt 0 .read).op ≠ some id := by
        intro hop
        have hlt := hs.stored id hop
        omega
      simp only
      rw [Function.update_of_ne hne, wakePc_of_ne hnot,
        Function.update_of_ne hne]
      exact hs.idle id (by omega)
    · rw [hslot]
      exact hs.ready
    · intro id hop
      rw [hslot] at hop
      have hid : n = id := Option.some.inj hop
      omega
    · rw [hnext, hs.nextToken, FixedWidth.incr_truncate]
  · constructor
    · rw [hslot]
      rfl
    · exact hs.nextToken
    · exact Function.update_self _ _ _

end SocketClose

end Iocoro
