/-
`backend_epoll::wait` and the events `process_events` acts on.  The vector of
events is a member of `io_context_impl`, handed from call to call.
-/
import Iocoro.ReactorTypes
import Mathlib.Data.List.Induction

namespace Iocoro

namespace Epoll

/-- `pack_fd_gen`. -/
def packFdGen (fd gen : BitVec 32) : BitVec 64 :=
  gen.setWidth 64 <<< 32 ||| fd.setWidth 64

/-- `unpack_fd`. -/
def unpackFd (data : BitVec 64) : Int := (data.setWidth 32).toInt

/-- `unpack_gen`. -/
def unpackGen (data : BitVec 64) : BitVec 32 := (data >>> 32).setWidth 32

def epollIn : BitVec 32 := 0x001
def epollOut : BitVec 32 := 0x004
def epollErr : BitVec 32 := 0x008
def epollHup : BitVec 32 := 0x010
def epollRdHup : BitVec 32 := 0x2000

/-- `epoll_event`. -/
structure EpollEvent where
  events : BitVec 32
  data : BitVec 64
deriving DecidableEq, Repr

/-- What `fd_active_` and `fd_generations_` hold for a descriptor. -/
structure Registration where
  active : Nat := 0
  generation : BitVec 32 := 0
deriving DecidableEq, Repr

/-- The members of `backend_epoll` that never change. -/
structure Backend where
  eventfd : Int
  fdCapacity : Nat
deriving DecidableEq, Repr

def EpollEvent.has (event : EpollEvent) (flag : BitVec 32) : Bool :=
  event.events &&& flag != 0

/-- The body of the loop over the kernel's events: an event of the eventfd, of
an unknown descriptor or of an old registration is skipped. -/
def decode (b : Backend) (loaded : Nat → Registration) (event : EpollEvent) :
    Option BackendEvent :=
  let fd := unpackFd event.data
  if fd = b.eventfd then none
  else if fd < 0 ∨ b.fdCapacity ≤ fd.toNat then none
  else if (loaded fd.toNat).active = 0 then none
  else if (loaded fd.toNat).generation ≠ unpackGen event.data then none
  else
    let hasError := event.has epollErr
    let hasHup := event.has (epollHup ||| epollRdHup)
    some {
      fd
      isError := hasError
      canRead := hasError || hasHup || event.has epollIn
      canWrite := hasError || hasHup || event.has epollOut
      ec := if hasError then .connectionReset else .none }

/-- How `epoll_wait` ends; a timeout is a batch without events. -/
inductive Outcome where
  | batch (events : List EpollEvent)
  | interrupted
  | failed (errno : Nat)
deriving DecidableEq, Repr

/-- One call: how its `epoll_wait` ends, and what is loaded for a descriptor
while the event at some position of the batch is looked at. -/
structure Call where
  outcome : Outcome
  loaded : Nat → Nat → Registration

/-- `backend_epoll::wait`: the new contents of `out`, or an exception. -/
def wait (b : Backend) (c : Call) (out : List BackendEvent) :
    Except Nat (List BackendEvent) :=
  match c.outcome with
  | .interrupted => .ok out
  | .failed errno => .error errno
  | .batch events =>
      .ok (events.zipIdx.filterMap fun (event, k) => decode b (c.loaded k) event)

/-- `process_events`: the member `backend_events_` afterwards, and the events
passed to `take_ready`. -/
def processEvents (b : Backend) (backendEvents : List BackendEvent) (c : Call) :
    List BackendEvent × List BackendEvent :=
  match wait b c backendEvents with
  | .error _ => (backendEvents, [])
  | .ok events => (events, events.filter fun event => decide (0 ≤ event.fd))

/-- The member after a sequence of calls. -/
def eventsAfter (b : Backend) (calls : List Call) : List BackendEvent :=
  calls.foldl (fun events c => (processEvents b events c).1) []

/-- The event is one that the `epoll_wait` of the call returned. -/
def ReturnedBy (b : Backend) (c : Call) (event : BackendEvent) : Prop :=
  ∃ events, c.outcome = .batch events ∧
    ∃ raw ∈ events, ∃ loaded, decode b loaded raw = some event

/-- Every call acts on events of its own `epoll_wait` only. -/
def ActsOnOwnEvents (b : Backend) (calls : List Call) : Prop :=
  ∀ before c after, calls = before ++ c :: after →
    ∀ event ∈ (processEvents b (eventsAfter b before) c).2,
      ReturnedBy b c event

/-- Whenever `epoll_wait` is interrupted, no event of an earlier batch is left
in the member. -/
def InterruptedWhenEmpty (b : Backend) (calls : List Call) : Prop :=
  ∀ before c after, calls = before ++ c :: after →
    c.outcome = .interrupted → eventsAfter b before = []

theorem getLsbD_packFdGen (fd gen : BitVec 32) (i : Nat) :
    (packFdGen fd gen).getLsbD i =
      if i < 32 then fd.getLsbD i else decide (i < 64) && gen.getLsbD (i - 32) := by
  have hfd : ∀ j, 32 ≤ j → fd.getLsbD j = false := BitVec.getLsbD_of_ge fd
  simp only [packFdGen, BitVec.getLsbD_or, BitVec.getLsbD_shiftLeft,
    BitVec.getLsbD_setWidth]
  grind

theorem setWidth_packFdGen (fd gen : BitVec 32) :
    (packFdGen fd gen).setWidth 32 = fd := by
  apply BitVec.eq_of_getLsbD_eq
  intro i hi
  simp [getLsbD_packFdGen, hi]

theorem unpackGen_packFdGen (fd gen : BitVec 32) :
    unpackGen (packFdGen fd gen) = gen := by
  apply BitVec.eq_of_getLsbD_eq
  intro i hi
  simp only [unpackGen, BitVec.getLsbD_setWidth, BitVec.getLsbD_ushiftRight,
    getLsbD_packFdGen]
  grind

theorem decode_fd_nonneg {b : Backend} {loaded : Nat → Registration}
    {raw : EpollEvent} {event : BackendEvent}
    (hdecode : decode b loaded raw = some event) : 0 ≤ event.fd := by
  rw [decode] at hdecode
  by_cases hfd : unpackFd raw.data < 0 ∨
      b.fdCapacity ≤ (unpackFd raw.data).toNat
  · simp [hfd] at hdecode
  · simp only [hfd, ↓reduceIte, Option.ite_none_left_eq_some,
      Option.some.injEq] at hdecode
    rw [← hdecode.2.2.2]
    exact Int.not_lt.mp fun hneg => hfd (Or.inl hneg)

theorem processEvents_batch {b : Backend} {c : Call} {events : List EpollEvent}
    (hbatch : c.outcome = .batch events) (backendEvents : List BackendEvent) :
    (processEvents b backendEvents c).1 =
      events.zipIdx.filterMap fun (event, k) => decode b (c.loaded k) event := by
  simp [processEvents, wait, hbatch]

/-- The member holds events of real descriptors only, so all of it is passed on
when it is looked at. -/
theorem eventsAfter_fd_nonneg (b : Backend) (calls : List Call) :
    ∀ event ∈ eventsAfter b calls, 0 ≤ event.fd := by
  induction calls using List.reverseRecOn with
  | nil => simp [eventsAfter]
  | append_singleton calls c ih =>
      intro event hevent
      rw [eventsAfter, List.foldl_append, List.foldl_cons, List.foldl_nil] at hevent
      cases hc : c.outcome with
      | batch events =>
          rw [processEvents_batch hc] at hevent
          obtain ⟨⟨raw, k⟩, _, hdecode⟩ := List.mem_filterMap.mp hevent
          exact decode_fd_nonneg hdecode
      | interrupted =>
          simp only [processEvents, wait, hc] at hevent
          exact ih event hevent
      | failed errno =>
          simp only [processEvents, wait, hc] at hevent
          exact ih event hevent

/-- An interrupted call acts on what the member holds. -/
theorem processEvents_interrupted {b : Backend} {c : Call}
    (hc : c.outcome = .interrupted) (calls : List Call) :
    (processEvents b (eventsAfter b calls) c).2 = eventsAfter b calls := by
  simp only [processEvents, wait, hc]
  rw [List.filter_eq_self]
  intro event hevent
  exact decide_eq_true (eventsAfter_fd_nonneg b calls event hevent)

theorem ActsOnOwnEvents.interruptedWhenEmpty {b : Backend} {calls : List Call}
    (hown : ActsOnOwnEvents b calls) : InterruptedWhenEmpty b calls := by
  intro before c after hcalls hc
  rw [List.eq_nil_iff_forall_not_mem]
  intro event hevent
  have hreturned := hown before c after hcalls event
    (by rw [processEvents_interrupted hc]; exact hevent)
  obtain ⟨events, hbatch, _⟩ := hreturned
  rw [hc] at hbatch
  simp at hbatch

/-- Calls act on their own events exactly when no interruption meets a member
that still holds an earlier batch. -/
theorem actsOnOwnEvents_iff (b : Backend) (calls : List Call) :
    ActsOnOwnEvents b calls ↔ InterruptedWhenEmpty b calls := by
  constructor
  · exact ActsOnOwnEvents.interruptedWhenEmpty
  · intro hempty before c after hcalls event hevent
    cases hc : c.outcome with
    | batch events =>
        have hmem : event ∈ (processEvents b (eventsAfter b before) c).1 := by
          simp only [processEvents, wait, hc] at hevent ⊢
          exact (List.mem_filter.mp hevent).1
        rw [processEvents_batch hc] at hmem
        obtain ⟨⟨raw, k⟩, hraw, hdecode⟩ := List.mem_filterMap.mp hmem
        exact ⟨events, hc, raw, List.fst_mem_of_mem_zipIdx hraw, c.loaded k,
          hdecode⟩
    | interrupted =>
        rw [processEvents_interrupted hc, hempty before c after hcalls hc] at hevent
        simp at hevent
    | failed errno =>
        simp only [processEvents, wait, hc] at hevent
        simp at hevent

/-- Descriptor `3` becomes readable, then a signal interrupts the next wait. -/
def signalAfterEvent : List Call :=
  let loaded := fun _ fd => if fd = 3 then ⟨1, 1⟩ else {}
  [⟨.batch [⟨epollIn, 0x100000003⟩], loaded⟩, ⟨.interrupted, loaded⟩]

theorem not_actsOnOwnEvents_signalAfterEvent :
    ¬ ∀ (b : Backend) (calls : List Call), ActsOnOwnEvents b calls := by
  intro hall
  have hown := hall ⟨5, 1024⟩ signalAfterEvent
  have hempty := hown.interruptedWhenEmpty (signalAfterEvent.take 1) _ [] rfl rfl
  exact absurd hempty (by decide)

end Epoll

end Iocoro
