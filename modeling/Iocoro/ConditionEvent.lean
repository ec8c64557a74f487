/-
`condition_event`: calls of `notify`, `async_wait` and stop requests from any
threads.  The sections under the lock and the exchange of `done` are the atomic
steps; a wait is known by its place in the order of the calls.
-/
import Mathlib.Data.List.Count
import Mathlib.Data.List.Nodup
import Iocoro.FixedWidth
import Iocoro.Inventory
import Iocoro.ReactorTypes
import Iocoro.TransitionSystem

namespace Iocoro

namespace ConditionEvent

/-- Where `await_suspend` stands; `over` once it has returned. -/
inductive WaitPc where
  | check
  | arm
  | lock
  | publish
  | recheck
  | cancelLock
  | cancelExchange
  | over
deriving DecidableEq, Repr

/-- Where the stop callback of a wait stands. -/
inductive StopPc where
  | idle
  | store
  | load
  | lock
  | exchange
  | over
deriving DecidableEq, Repr

/-- A call of `async_wait` with its `waiter_state`.  `callback` says that the
stop callback is installed, `result` is what the wait completes with, and
`taken` records that it has consumed a notification: a pending one, or one that
took it off the waiter list. -/
structure Wait where
  pc : WaitPc := .check
  stopPc : StopPc := .idle
  stopRequested : Bool := false
  callback : Bool := false
  cancelRequested : Bool := false
  suspended : Bool := false
  done : Bool := false
  linked : Bool := false
  result : Option ErrorCode := none
  taken : Bool := false
deriving DecidableEq, Repr

/-- `state::complete`, up to the posting of the coroutine. -/
def Wait.complete (w : Wait) (ec : ErrorCode) : Wait :=
  if w.done then w
  else { w with done := true, result := some ec, callback := false }

def Wait.succeeded (w : Wait) : Bool := w.result == some .none

/-- Neither the wait's own thread nor its stop callback is at work. -/
def Wait.settled (w : Wait) : Bool :=
  w.pc == .over && (w.stopPc == .idle || w.stopPc == .over)

/-- `popped` are the waiters that a `notify` in progress has taken off the list
and not yet completed; `notified` counts the calls of `notify`. -/
structure State where
  pending : Nat := 0
  waiters : List Nat := []
  waits : List Wait := []
  popped : List Nat := []
  notified : Nat := 0
deriving DecidableEq, Repr

inductive Action where
  | asyncWait
  | await (id : Nat)
  | stop (id : Nat)
  | callback (id : Nat)
  | notify
  | complete (id : Nat)
deriving DecidableEq, Repr

def State.wait (s : State) (id : Nat) : Wait := s.waits.getD id {}

def State.put (s : State) (id : Nat) (w : Wait) : State :=
  { s with waits := s.waits.set id w }

/-- The locked section of `cancel_waiter`. -/
def State.unlink (s : State) (id : Nat) (w : Wait) : State :=
  if w.linked then
    { s.put id { w with linked := false } with waiters := s.waiters.erase id }
  else s.put id w

/-- The locked section of `await_suspend`. -/
def State.enter (s : State) (id : Nat) (w : Wait) : State :=
  if 0 < s.pending then
    { s.put id { w with
        pc := .over, callback := false, result := some .none, taken := true }
      with pending := s.pending - 1 }
  else
    { s.put id { w with pc := .publish, linked := true } with
      waiters := s.waiters ++ [id] }

/-- The next step of `await_suspend`.  A stop that is requested before the
callback is installed runs the callback at once, which finds the wait not
suspended. -/
def await (s : State) (id : Nat) (w : Wait) : Option State :=
  match w.pc with
  | .check =>
      if w.stopRequested then
        some (s.put id { w with
          pc := .over, result := some .operationAborted })
      else some (s.put id { w with pc := .arm })
  | .arm => some (s.put id { w with
      pc := .lock
      callback := !w.stopRequested
      cancelRequested := w.stopRequested })
  | .lock => some (s.enter id w)
  | .publish => some (s.put id { w with pc := .recheck, suspended := true })
  | .recheck => some (s.put id { w with
      pc := if w.cancelRequested then .cancelLock else .over })
  | .cancelLock => some (s.unlink id { w with pc := .cancelExchange })
  | .cancelExchange => some (s.put id
      ({ w with pc := .over }.complete .operationAborted))
  | .over => none

/-- The next step of the stop callback. -/
def callback (s : State) (id : Nat) (w : Wait) : Option State :=
  match w.stopPc with
  | .store =>
      some (s.put id { w with stopPc := .load, cancelRequested := true })
  | .load => some (s.put id { w with
      stopPc := if w.suspended then .lock else .over })
  | .lock => some (s.unlink id { w with stopPc := .exchange })
  | .exchange => some (s.put id
      ({ w with stopPc := .over }.complete .operationAborted))
  | _ => none

/-- The locked section of `notify`. -/
def notify (s : State) : State :=
  match s.waiters with
  | id :: rest =>
      { s.put id { s.wait id with linked := false, taken := true } with
        waiters := rest
        popped := id :: s.popped
        notified := s.notified + 1 }
  | [] => { s with
      pending := FixedWidth.incr 64 s.pending, notified := s.notified + 1 }

def step (s : State) : Action → Option State
  | .asyncWait => some { s with waits := s.waits ++ [{}] }
  | .await id =>
      if id < s.waits.length then await s id (s.wait id) else none
  | .stop id =>
      if id < s.waits.length ∧ (s.wait id).stopRequested = false then
        some (s.put id { s.wait id with
          stopRequested := true
          stopPc := if (s.wait id).callback then .store
            else (s.wait id).stopPc })
      else none
  | .callback id =>
      if id < s.waits.length then callback s id (s.wait id) else none
  | .notify => some (notify s)
  | .complete id =>
      if id ∈ s.popped then
        some { s.put id ((s.wait id).complete .none) with
          popped := s.popped.erase id }
      else none

def system : TransitionSystem State Action where
  start := {}
  step := step

/-- No call is in progress: the waits are over or suspended. -/
def State.quiescent (s : State) : Bool :=
  s.popped.isEmpty && s.waits.all Wait.settled

/-- The number of waits completed with success. -/
def State.successes (s : State) : Nat := s.waits.countP Wait.succeeded

/-- The number of notifications that a wait has consumed. -/
def State.consumed (s : State) : Nat := s.waits.countP Wait.taken

/-- The account of notifications. -/
structure Conserved (s : State) : Prop where
  balance : s.quiescent = true → s.notified = s.pending + s.successes
  empty : 0 < s.pending → s.waiters = []
  consumed : s.notified = s.pending + s.consumed
  taken : ∀ w ∈ s.waits, w.succeeded = true → w.taken = true

/-- A stop does not complete a waiter that a `notify` in progress holds. -/
def State.stopYields (s : State) (id : Nat) : Bool :=
  (s.wait id).done || !s.popped.contains id

/-- No stop completes a waiter between its removal by `notify` and its
completion, and the count of pending notifications does not overflow. -/
def orderly (s : State) : Action → Bool
  | .await id => (s.wait id).pc != .cancelExchange || s.stopYields id
  | .callback id => (s.wait id).stopPc != .exchange || s.stopYields id
  | .notify => !s.waiters.isEmpty || decide (s.pending + 1 < 2 ^ 64)
  | _ => true

/-! ### Invariant -/

/-- The wait has not reached the locked section of `await_suspend`. -/
def WaitPc.early : WaitPc → Bool
  | .check | .arm | .lock => true
  | _ => false

/-- What one wait says by itself. -/
structure WaitOk (w : Wait) : Prop where
  early : w.pc.early = true → w.linked = false ∧ w.suspended = false ∧
    w.done = false ∧ w.taken = false ∧ w.result = none
  linked : w.linked = true → w.done = false ∧ w.taken = false ∧
    w.result = none
  publish : w.pc = .publish → w.done = false → w.result = none
  suspended : w.suspended = true → w.done = false → w.result = none
  recheck : w.pc = .recheck → w.suspended = true
  cancelLock : w.pc = .cancelLock → w.suspended = true
  cancelExchange : w.pc = .cancelExchange →
    w.suspended = true ∧ w.linked = false
  stopLock : w.stopPc = .lock → w.suspended = true
  stopExchange : w.stopPc = .exchange → w.suspended = true ∧ w.linked = false
  taken : w.succeeded = true → w.taken = true

/-- A waiter held by a `notify` in progress. -/
structure HeldOk (w : Wait) : Prop where
  unlinked : w.linked = false
  done : w.done = false
  taken : w.taken = true
  result : w.result = none

structure Inv (s : State) : Prop where
  waits : ∀ id, WaitOk (s.wait id)
  waiters : ∀ id, id ∈ s.waiters ↔ (s.wait id).linked = true
  waitersNodup : s.waiters.Nodup
  popped : ∀ id ∈ s.popped, HeldOk (s.wait id)
  poppedNodup : s.popped.Nodup
  empty : 0 < s.pending → s.waiters = []
  consumed : s.notified = s.pending + s.consumed
  balance : s.notified = s.pending + s.successes + s.popped.length

theorem waitOk_default : WaitOk {} := by
  constructor <;> simp [Wait.succeeded]

theorem start_inv : Inv system.start where
  waits := fun _ => waitOk_default
  waiters := by simp [system, State.wait]
  waitersNodup := List.nodup_nil
  popped := by simp [system]
  poppedNodup := List.nodup_nil
  empty := by simp [system]
  consumed := rfl
  balance := rfl

theorem Inv.conserved {s : State} (hs : Inv s) : Conserved s where
  balance := by
    intro hquiescent
    simp only [State.quiescent, Bool.and_eq_true, List.isEmpty_iff] at hquiescent
    rw [hs.balance, hquiescent.1]
    rfl
  empty := hs.empty
  consumed := hs.consumed
  taken := by
    intro w hw
    obtain ⟨id, hid, rfl⟩ := List.mem_iff_getElem.mp hw
    have hwait := (hs.waits id).taken
    rw [State.wait, List.getD_eq_getElem _ _ hid] at hwait
    exact hwait

/-! ### The table of waits -/

theorem wait_put {s : State} {id : Nat} (hid : id < s.waits.length) (w : Wait)
    (other : Nat) :
    (s.put id w).wait other = if other = id then w else s.wait other :=
  Inventory.getD_set hid w {} other

theorem lt_length_of_linked {s : State} {id : Nat}
    (hlinked : (s.wait id).linked = true) : id < s.waits.length := by
  by_contra hid
  rw [State.wait, List.getD_eq_default _ _ (by omega)] at hlinked
  simp at hlinked

theorem lt_length_of_taken {s : State} {id : Nat}
    (htaken : (s.wait id).taken = true) : id < s.waits.length := by
  by_contra hid
  rw [State.wait, List.getD_eq_default _ _ (by omega)] at htaken
  simp at htaken

theorem successes_put {s : State} {id : Nat} (hid : id < s.waits.length)
    (w : Wait) :
    (s.put id w).successes + (s.wait id).succeeded.toNat =
      s.successes + w.succeeded.toNat :=
  Inventory.countP_set hid Wait.succeeded w {}

theorem consumed_put {s : State} {id : Nat} (hid : id < s.waits.length)
    (w : Wait) :
    (s.put id w).consumed + (s.wait id).taken.toNat =
      s.consumed + w.taken.toNat :=
  Inventory.countP_set hid Wait.taken w {}

theorem successes_put_of_eq {s : State} {id : Nat} (hid : id < s.waits.length)
    {w : Wait} (hsucceeded : w.succeeded = (s.wait id).succeeded) :
    (s.put id w).successes = s.successes := by
  have hput := successes_put hid w
  rw [hsucceeded] at hput
  exact Nat.add_right_cancel hput

theorem consumed_put_of_eq {s : State} {id : Nat} (hid : id < s.waits.length)
    {w : Wait} (htaken : w.taken = (s.wait id).taken) :
    (s.put id w).consumed = s.consumed := by
  have hput := consumed_put hid w
  rw [htaken] at hput
  exact Nat.add_right_cancel hput

theorem put_waits {s : State} (hs : Inv s) {id : Nat}
    (hid : id < s.waits.length) {w : Wait} (hw : WaitOk w) (other : Nat) :
    WaitOk ((s.put id w).wait other) := by
  rw [wait_put hid]
  split
  · exact hw
  · exact hs.waits other

theorem put_popped {s : State} (hs : Inv s) {id : Nat}
    (hid : id < s.waits.length) (hfree : id ∉ s.popped) (w : Wait) :
    ∀ other ∈ s.popped, HeldOk ((s.put id w).wait other) := by
  intro other hother
  have hne : other ≠ id := by
    rintro rfl
    exact hfree hother
  rw [wait_put hid, if_neg hne]
  exact hs.popped other hother

/-- A step of one wait that neither links nor completes it with success, and
leaves it alone as far as a `notify` in progress is concerned. -/
theorem put_inv {s : State} (hs : Inv s) {id : Nat}
    (hid : id < s.waits.length) {w : Wait} (hw : WaitOk w)
    (hlinked : w.linked = (s.wait id).linked)
    (htaken : w.taken = (s.wait id).taken)
    (hsucceeded : w.succeeded = (s.wait id).succeeded)
    (hpopped : id ∈ s.popped → w.done = (s.wait id).done ∧
      w.result = (s.wait id).result) : Inv (s.put id w) where
  waits := put_waits hs hid hw
  waiters := by
    intro other
    rw [wait_put hid]
    split
    · next hother =>
        rw [hother, hlinked]
        exact hs.waiters id
    · exact hs.waiters other
  waitersNodup := hs.waitersNodup
  popped := by
    intro other hother
    rw [wait_put hid]
    split
    · next heq =>
        subst heq
        have hheld := hs.popped other hother
        obtain ⟨hdone, hresult⟩ := hpopped hother
        exact ⟨hlinked.trans hheld.unlinked, hdone.trans hheld.done,
          htaken.trans hheld.taken, hresult.trans hheld.result⟩
    · exact hs.popped other hother
  poppedNodup := hs.poppedNodup
  empty := hs.empty
  consumed := by
    rw [consumed_put_of_eq hid htaken]
    exact hs.consumed
  balance := by
    rw [successes_put_of_eq hid hsucceeded]
    exact hs.balance

/-! ### Cancellation -/

theorem Wait.complete_of_done {w : Wait} (hdone : w.done = true)
    (ec : ErrorCode) : w.complete ec = w := by
  rw [Wait.complete, if_pos hdone]

theorem Wait.complete_of_not_done {w : Wait} (hdone : w.done = false)
    (ec : ErrorCode) : w.complete ec =
      { w with done := true, result := some ec, callback := false } := by
  rw [Wait.complete, if_neg (by simp [hdone])]

theorem WaitOk.early_false {w : Wait} (hw : WaitOk w)
    (hsuspended : w.suspended = true) : w.pc.early = false := by
  by_contra hearly
  rw [Bool.not_eq_false] at hearly
  rw [(hw.early hearly).2.1] at hsuspended
  simp at hsuspended

/-- A completion takes an unlinked wait that has entered; with success it must
have consumed a notification. -/
theorem WaitOk.complete {w : Wait} (hw : WaitOk w)
    (hearly : w.pc.early = false) (hunlinked : w.linked = false)
    {ec : ErrorCode} (htaken : ec = .none → w.taken = true) :
    WaitOk (w.complete ec) := by
  cases hdone : w.done with
  | true =>
      rw [Wait.complete_of_done hdone]
      exact hw
  | false =>
      rw [Wait.complete_of_not_done hdone]
      constructor
      · simp [hearly]
      · simp [hunlinked]
      · simp
      · simp
      · exact hw.recheck
      · exact hw.cancelLock
      · exact hw.cancelExchange
      · exact hw.stopLock
      · exact hw.stopExchange
      · simpa [Wait.succeeded] using htaken

/-- The exchange at the end of a cancellation. -/
theorem abort_inv {s : State} (hs : Inv s) {id : Nat}
    (hid : id < s.waits.length) {w : Wait} (hw : WaitOk w)
    (hsuspended : w.suspended = true) (hunlinked : w.linked = false)
    (hlinked : w.linked = (s.wait id).linked)
    (htaken : w.taken = (s.wait id).taken)
    (hdone : w.done = (s.wait id).done)
    (hresult : w.result = (s.wait id).result)
    (hyields : s.stopYields id = true) :
    Inv (s.put id (w.complete .operationAborted)) := by
  have hok : WaitOk (w.complete .operationAborted) :=
    hw.complete (hw.early_false hsuspended) hunlinked (by simp)
  cases hcase : w.done with
  | true =>
      rw [Wait.complete_of_done hcase] at hok ⊢
      refine put_inv hs hid hok hlinked htaken ?_ (fun _ => ⟨hdone, hresult⟩)
      rw [Wait.succeeded, hresult, Wait.succeeded]
  | false =>
      rw [Wait.complete_of_not_done hcase] at hok ⊢
      refine put_inv hs hid hok hlinked htaken ?_ ?_
      · have hnone := hw.suspended hsuspended hcase
        rw [hresult] at hnone
        simp [Wait.succeeded, hnone]
      · intro hmem
        rw [hdone] at hcase
        simp [State.stopYields, hcase, hmem] at hyields

theorem WaitOk.unlink {w : Wait} (hw : WaitOk w) :
    WaitOk { w with linked := false } where
  early := fun hearly => ⟨rfl, (hw.early hearly).2⟩
  linked := by simp
  publish := hw.publish
  suspended := hw.suspended
  recheck := hw.recheck
  cancelLock := hw.cancelLock
  cancelExchange := fun hpc => ⟨(hw.cancelExchange hpc).1, rfl⟩
  stopLock := hw.stopLock
  stopExchange := fun hpc => ⟨(hw.stopExchange hpc).1, rfl⟩
  taken := hw.taken

/-- The locked section of a cancellation; `w` is the wait with its thread
moved on. -/
theorem unlink_inv {s : State} (hs : Inv s) {id : Nat}
    (hid : id < s.waits.length) {w : Wait}
    (hw : WaitOk { w with linked := false })
    (hlinked : w.linked = (s.wait id).linked)
    (htaken : w.taken = (s.wait id).taken)
    (hdone : w.done = (s.wait id).done)
    (hresult : w.result = (s.wait id).result) : Inv (s.unlink id w) := by
  have hsucceeded : w.succeeded = (s.wait id).succeeded := by
    rw [Wait.succeeded, hresult, Wait.succeeded]
  unfold State.unlink
  split
  · next htrue =>
      rw [hlinked] at htrue
      constructor
      · exact put_waits hs hid hw
      · intro other
        change other ∈ s.waiters.erase id ↔ ((s.put id _).wait other).linked = _
        rw [wait_put hid, hs.waitersNodup.mem_erase_iff]
        split
        · next heq => simp [heq]
        · next hne =>
            rw [← hs.waiters other]
            exact and_iff_right hne
      · exact hs.waitersNodup.erase id
      · refine put_popped hs hid ?_ _
        intro hmem
        rw [(hs.popped id hmem).unlinked] at htrue
        simp at htrue
      · exact hs.poppedNodup
      · intro hpending
        change s.waiters.erase id = []
        rw [hs.empty hpending]
        rfl
      · change s.notified = s.pending + (s.put id _).consumed
        rw [consumed_put_of_eq (w := { w with linked := false }) hid htaken]
        exact hs.consumed
      · change s.notified = s.pending + (s.put id _).successes +
          s.popped.length
        rw [successes_put_of_eq (w := { w with linked := false }) hid hsucceeded]
        exact hs.balance
  · next hfalse =>
      have heq : ({ w with linked := false } : Wait) = w := by
        rw [Bool.not_eq_true] at hfalse
        rw [← hfalse]
      rw [heq] at hw
      exact put_inv hs hid hw hlinked htaken hsucceeded
        (fun _ => ⟨hdone, hresult⟩)

/-! ### The steps of a wait -/

theorem not_popped_of_not_taken {s : State} (hs : Inv s) {id : Nat}
    (htaken : (s.wait id).taken = false) : id ∉ s.popped := by
  intro hid
  rw [(hs.popped id hid).taken] at htaken
  simp at htaken

theorem WaitOk.early_stop {w : Wait} (hw : WaitOk w)
    (hsuspended : w.suspended = false) :
    w.stopPc ≠ .lock ∧ w.stopPc ≠ .exchange := by
  constructor
  · intro hstop
    rw [hw.stopLock hstop] at hsuspended
    simp at hsuspended
  · intro hstop
    rw [(hw.stopExchange hstop).1] at hsuspended
    simp at hsuspended

/-- `await_suspend` finds a pending notification and consumes it. -/
theorem take_inv {s : State} (hs : Inv s) {id : Nat}
    (hid : id < s.waits.length) (hpc : (s.wait id).pc = .lock)
    (hpending : 0 < s.pending) :
    Inv { s.put id { s.wait id with
        pc := .over, callback := false, result := some .none, taken := true }
      with pending := s.pending - 1 } := by
  have hw := hs.waits id
  obtain ⟨hlinked, hsuspended, hdone, htaken, hresult⟩ :=
    hw.early (by rw [hpc]; rfl)
  have hstop := hw.early_stop hsuspended
  have hnil := hs.empty hpending
  have hconsumed := consumed_put hid { s.wait id with
    pc := .over, callback := false, result := some .none, taken := true }
  have hsuccesses := successes_put hid { s.wait id with
    pc := .over, callback := false, result := some .none, taken := true }
  simp only [htaken, Bool.toNat_false, Bool.toNat_true, add_zero] at hconsumed
  rw [show (s.wait id).succeeded = false by simp [Wait.succeeded, hresult]]
    at hsuccesses
  change (s.put id _).successes = s.successes + 1 at hsuccesses
  constructor
  · refine put_waits hs hid ?_
    constructor <;> simp_all [WaitPc.early, Wait.succeeded]
  · intro other
    change other ∈ s.waiters ↔ ((s.put id _).wait other).linked = true
    rw [wait_put hid]
    split
    · next heq =>
        rw [heq, hnil]
        simp [hlinked]
    · exact hs.waiters other
  · exact hs.waitersNodup
  · exact put_popped hs hid (not_popped_of_not_taken hs htaken) _
  · exact hs.poppedNodup
  · exact fun _ => hnil
  · change s.notified = s.pending - 1 + (s.put id _).consumed
    rw [hconsumed, hs.consumed]
    omega
  · change s.notified = s.pending - 1 + (s.put id _).successes +
      s.popped.length
    rw [hsuccesses, hs.balance]
    omega

/-- `await_suspend` finds nothing pending and puts the wait at the end of the
waiter list. -/
theorem link_inv {s : State} (hs : Inv s) {id : Nat}
    (hid : id < s.waits.length) (hpc : (s.wait id).pc = .lock)
    (hpending : ¬ 0 < s.pending) :
    Inv { s.put id { s.wait id with pc := .publish, linked := true } with
      waiters := s.waiters ++ [id] } := by
  have hw := hs.waits id
  obtain ⟨hlinked, hsuspended, hdone, htaken, hresult⟩ :=
    hw.early (by rw [hpc]; rfl)
  have hstop := hw.early_stop hsuspended
  have hold : id ∉ s.waiters := by
    rw [hs.waiters id, hlinked]
    simp
  constructor
  · refine put_waits hs hid ?_
    constructor <;> simp_all [WaitPc.early, Wait.succeeded]
  · intro other
    change other ∈ s.waiters ++ [id] ↔ ((s.put id _).wait other).linked = true
    rw [wait_put hid]
    split
    · next heq => simp [heq]
    · next hne =>
        rw [← hs.waiters other]
        simp [hne]
  · rw [List.nodup_append_comm]
    exact List.nodup_cons.mpr ⟨hold, hs.waitersNodup⟩
  · exact put_popped hs hid (not_popped_of_not_taken hs htaken) _
  · exact hs.poppedNodup
  · exact fun htrue => absurd htrue hpending
  · change s.notified = s.pending + (s.put id _).consumed
    rw [consumed_put_of_eq (w := { s.wait id with
      pc := .publish, linked := true }) hid rfl]
    exact hs.consumed
  · change s.notified = s.pending + (s.put id _).successes + s.popped.length
    rw [successes_put_of_eq (w := { s.wait id with
      pc := .publish, linked := true }) hid rfl]
    exact hs.balance

theorem enter_inv {s : State} (hs : Inv s) {id : Nat}
    (hid : id < s.waits.length) (hpc : (s.wait id).pc = .lock) :
    Inv (s.enter id (s.wait id)) := by
  unfold State.enter
  split
  · next hpending => exact take_inv hs hid hpc hpending
  · next hpending => exact link_inv hs hid hpc hpending

/-- A wait moves on and keeps what it has got. -/
theorem WaitOk.goto {w : Wait} (hw : WaitOk w) (pc : WaitPc)
    (callback cancelRequested : Bool)
    (hearly : pc.early = true → w.pc.early = true) (hpublish : pc ≠ .publish)
    (hrecheck : pc = .recheck → w.suspended = true)
    (hcancelLock : pc = .cancelLock → w.suspended = true)
    (hcancelExchange : pc ≠ .cancelExchange) :
    WaitOk { w with pc, callback, cancelRequested } where
  early h := hw.early (hearly h)
  linked := hw.linked
  publish h := absurd h hpublish
  suspended := hw.suspended
  recheck := hrecheck
  cancelLock := hcancelLock
  cancelExchange h := absurd h hcancelExchange
  stopLock := hw.stopLock
  stopExchange := hw.stopExchange
  taken := hw.taken

/-- A wait that has not been entered is aborted. -/
theorem WaitOk.aborted {w : Wait} (hw : WaitOk w) (hearly : w.pc.early = true) :
    WaitOk { w with pc := .over, result := some .operationAborted } := by
  obtain ⟨hlinked, hsuspended, -, -, -⟩ := hw.early hearly
  exact {
    early := nofun
    linked := fun h => Bool.noConfusion (hlinked.symm.trans h)
    publish := nofun
    suspended := fun h => Bool.noConfusion (hsuspended.symm.trans h)
    recheck := nofun
    cancelLock := nofun
    cancelExchange := nofun
    stopLock := hw.stopLock
    stopExchange := hw.stopExchange
    taken := by simp [Wait.succeeded] }

theorem WaitOk.publishes {w : Wait} (hw : WaitOk w) (hpc : w.pc = .publish) :
    WaitOk { w with pc := .recheck, suspended := true } where
  early := nofun
  linked := hw.linked
  publish := nofun
  suspended _ := hw.publish hpc
  recheck _ := rfl
  cancelLock := nofun
  cancelExchange := nofun
  stopLock _ := rfl
  stopExchange h := ⟨rfl, (hw.stopExchange h).2⟩
  taken := hw.taken

theorem WaitOk.unlinks {w : Wait} (hw : WaitOk w) (hpc : w.pc = .cancelLock) :
    WaitOk { w with pc := .cancelExchange, linked := false } where
  early := nofun
  linked := nofun
  publish := nofun
  suspended := hw.suspended
  recheck := nofun
  cancelLock := nofun
  cancelExchange _ := ⟨hw.cancelLock hpc, rfl⟩
  stopLock := hw.stopLock
  stopExchange h := ⟨(hw.stopExchange h).1, rfl⟩
  taken := hw.taken

theorem await_inv {s t : State} (hs : Inv s) {id : Nat}
    (hid : id < s.waits.length) (horderly : orderly s (.await id) = true)
    (hstep : await s id (s.wait id) = some t) : Inv t := by
  have hw := hs.waits id
  unfold await at hstep
  split at hstep
  · next hpc =>
      have hearly : (s.wait id).pc.early = true := by rw [hpc]; rfl
      split at hstep
      · obtain rfl := Option.some.inj hstep
        refine put_inv hs hid (hw.aborted hearly) rfl rfl ?_ ?_
        · simp [Wait.succeeded, (hw.early hearly).2.2.2.2]
        · exact fun hmem =>
            absurd hmem (not_popped_of_not_taken hs (hw.early hearly).2.2.2.1)
      · obtain rfl := Option.some.inj hstep
        refine put_inv hs hid ?_ rfl rfl rfl (fun _ => ⟨rfl, rfl⟩)
        exact hw.goto .arm _ _ (fun _ => hearly) nofun nofun nofun nofun
  · next hpc =>
      have hearly : (s.wait id).pc.early = true := by rw [hpc]; rfl
      obtain rfl := Option.some.inj hstep
      refine put_inv hs hid ?_ rfl rfl rfl (fun _ => ⟨rfl, rfl⟩)
      exact hw.goto .lock _ _ (fun _ => hearly) nofun nofun nofun nofun
  · next hpc =>
      obtain rfl := Option.some.inj hstep
      exact enter_inv hs hid hpc
  · next hpc =>
      obtain rfl := Option.some.inj hstep
      exact put_inv hs hid (hw.publishes hpc) rfl rfl rfl (fun _ => ⟨rfl, rfl⟩)
  · next hpc =>
      obtain rfl := Option.some.inj hstep
      refine put_inv hs hid ?_ rfl rfl rfl (fun _ => ⟨rfl, rfl⟩)
      split
      · exact hw.goto .cancelLock _ _ nofun nofun nofun (fun _ => hw.recheck hpc) nofun
      · exact hw.goto .over _ _ nofun nofun nofun nofun nofun
  · next hpc =>
      obtain rfl := Option.some.inj hstep
      exact unlink_inv hs hid (hw.unlinks hpc) rfl rfl rfl rfl
  · next hpc =>
      obtain rfl := Option.some.inj hstep
      obtain ⟨hsuspended, hunlinked⟩ := hw.cancelExchange hpc
      refine abort_inv hs hid ?_ hsuspended hunlinked rfl rfl rfl rfl ?_
      · exact hw.goto .over _ _ nofun nofun nofun nofun nofun
      · simpa [orderly, hpc] using horderly
  · simp at hstep

theorem stop_inv {s : State} (hs : Inv s) {id : Nat}
    (hid : id < s.waits.length) :
    Inv (s.put id { s.wait id with
      stopRequested := true
      stopPc := if (s.wait id).callback then .store
        else (s.wait id).stopPc }) := by
  have hw := hs.waits id
  refine put_inv hs hid ?_ rfl rfl rfl (fun _ => ⟨rfl, rfl⟩)
  refine ⟨hw.early, hw.linked, hw.publish, hw.suspended, hw.recheck,
    hw.cancelLock, hw.cancelExchange, ?_, ?_, hw.taken⟩
  · simp only
    split
    · simp
    · exact hw.stopLock
  · simp only
    split
    · simp
    · exact hw.stopExchange

theorem callback_inv {s t : State} (hs : Inv s) {id : Nat}
    (hid : id < s.waits.length) (horderly : orderly s (.callback id) = true)
    (hstep : callback s id (s.wait id) = some t) : Inv t := by
  have hw := hs.waits id
  unfold callback at hstep
  split at hstep
  · obtain rfl := Option.some.inj hstep
    refine put_inv hs hid ?_ rfl rfl rfl (fun _ => ⟨rfl, rfl⟩)
    exact ⟨hw.early, hw.linked, hw.publish, hw.suspended, hw.recheck,
      hw.cancelLock, hw.cancelExchange, by simp, by simp, hw.taken⟩
  · obtain rfl := Option.some.inj hstep
    refine put_inv hs hid ?_ rfl rfl rfl (fun _ => ⟨rfl, rfl⟩)
    refine ⟨hw.early, hw.linked, hw.publish, hw.suspended, hw.recheck,
      hw.cancelLock, hw.cancelExchange, ?_, ?_, hw.taken⟩
    · simp only
      split
      · next hsuspended => exact fun _ => hsuspended
      · simp
    · simp only
      split <;> simp
  · next hstop =>
      obtain rfl := Option.some.inj hstep
      refine unlink_inv hs hid ?_ rfl rfl rfl rfl
      have hunlinked := hw.unlink
      exact ⟨hunlinked.early, hunlinked.linked, hw.publish, hw.suspended,
        hw.recheck, hw.cancelLock, hunlinked.cancelExchange, by simp,
        fun _ => ⟨hw.stopLock hstop, rfl⟩, hw.taken⟩
  · next hstop =>
      obtain rfl := Option.some.inj hstep
      obtain ⟨hsuspended, hunlinked⟩ := hw.stopExchange hstop
      refine abort_inv hs hid ?_ hsuspended hunlinked rfl rfl rfl rfl ?_
      · exact ⟨hw.early, hw.linked, hw.publish, hw.suspended, hw.recheck,
          hw.cancelLock, hw.cancelExchange, by simp, by simp, hw.taken⟩
      · simpa [orderly, hstop] using horderly
  · simp at hstep

theorem asyncWait_inv {s : State} (hs : Inv s) :
    Inv { s with waits := s.waits ++ [{}] } := by
  have hwait : ∀ id,
      State.wait { s with waits := s.waits ++ [{}] } id = s.wait id :=
    Inventory.getD_append_default s.waits {}
  have hcount : ∀ p : Wait → Bool, p {} = false →
      (s.waits ++ [({} : Wait)]).countP p = s.waits.countP p := by
    intro p hp
    simp [List.countP_append, hp]
  constructor
  · intro id
    rw [hwait]
    exact hs.waits id
  · intro id
    rw [hwait]
    exact hs.waiters id
  · exact hs.waitersNodup
  · intro id hid
    rw [hwait]
    exact hs.popped id hid
  · exact hs.poppedNodup
  · exact hs.empty
  · rw [State.consumed, hcount _ rfl]
    exact hs.consumed
  · rw [State.successes, hcount _ rfl]
    exact hs.balance

/-! ### Notification -/

/-- `notify` takes the first waiter off the list, which has then consumed the
notification. -/
theorem pop_inv {s : State} (hs : Inv s) {id : Nat} {rest : List Nat}
    (hwaiters : s.waiters = id :: rest) :
    Inv { s.put id { s.wait id with linked := false, taken := true } with
      waiters := rest
      popped := id :: s.popped
      notified := s.notified + 1 } := by
  have hlinked : (s.wait id).linked = true := by
    rw [← hs.waiters id, hwaiters]
    exact List.mem_cons_self
  have hid := lt_length_of_linked hlinked
  have hw := hs.waits id
  obtain ⟨hdone, htaken, hresult⟩ := hw.linked hlinked
  have hfree := not_popped_of_not_taken hs htaken
  have hnodup := hs.waitersNodup
  rw [hwaiters, List.nodup_cons] at hnodup
  have hearly : (s.wait id).pc.early = false := by
    by_contra hpc
    rw [Bool.not_eq_false] at hpc
    rw [(hw.early hpc).1] at hlinked
    simp at hlinked
  have hconsumed := consumed_put hid
    { s.wait id with linked := false, taken := true }
  rw [htaken] at hconsumed
  change (s.put id _).consumed = s.consumed + 1 at hconsumed
  have hsuccesses := successes_put_of_eq
    (w := { s.wait id with linked := false, taken := true }) hid rfl
  constructor
  · refine put_waits hs hid ?_
    have hunlinked := hw.unlink
    exact ⟨by simp [hearly], by simp, hw.publish, hw.suspended, hw.recheck,
      hw.cancelLock, hunlinked.cancelExchange, hw.stopLock,
      hunlinked.stopExchange, fun _ => rfl⟩
  · intro other
    change other ∈ rest ↔ ((s.put id _).wait other).linked = true
    rw [wait_put hid]
    split
    · next heq => simpa [heq] using hnodup.1
    · next hne =>
        rw [← hs.waiters other, hwaiters, List.mem_cons]
        exact (or_iff_right hne).symm
  · exact hnodup.2
  · intro other hother
    rcases List.mem_cons.mp hother with rfl | hold
    · change HeldOk ((s.put other _).wait other)
      rw [wait_put hid, if_pos rfl]
      exact ⟨rfl, hdone, rfl, hresult⟩
    · exact put_popped hs hid hfree _ other hold
  · exact List.nodup_cons.mpr ⟨hfree, hs.poppedNodup⟩
  · intro hpending
    rw [hs.empty hpending] at hwaiters
    simp at hwaiters
  · change s.notified + 1 = s.pending + (s.put id _).consumed
    rw [hconsumed, hs.consumed]
    omega
  · change s.notified + 1 = s.pending + (s.put id _).successes +
      (s.popped.length + 1)
    rw [hsuccesses, hs.balance]
    omega

/-- `notify` finds no waiter and adds to the pending notifications. -/
theorem accumulate_inv {s : State} (hs : Inv s) (hwaiters : s.waiters = [])
    (hfits : s.pending + 1 < 2 ^ 64) :
    Inv { s with
      pending := FixedWidth.incr 64 s.pending, notified := s.notified + 1 } := by
  rw [FixedWidth.incr_of_lt hfits]
  constructor
  · exact hs.waits
  · exact hs.waiters
  · exact hs.waitersNodup
  · exact hs.popped
  · exact hs.poppedNodup
  · exact fun _ => hwaiters
  · change s.notified + 1 = s.pending + 1 + s.consumed
    rw [hs.consumed]
    omega
  · change s.notified + 1 = s.pending + 1 + s.successes + s.popped.length
    rw [hs.balance]
    omega

theorem notify_inv {s : State} (hs : Inv s)
    (horderly : orderly s .notify = true) : Inv (notify s) := by
  unfold notify
  split
  · next id rest hwaiters => exact pop_inv hs hwaiters
  · next hwaiters =>
      apply accumulate_inv hs hwaiters
      simpa [orderly, hwaiters] using horderly

/-- The completion of a waiter that `notify` holds succeeds. -/
theorem complete_inv {s : State} (hs : Inv s) {id : Nat} (hid : id ∈ s.popped) :
    Inv { s.put id ((s.wait id).complete .none) with
      popped := s.popped.erase id } := by
  have hheld := hs.popped id hid
  have hlength := lt_length_of_taken hheld.taken
  have hw := hs.waits id
  have hearly : (s.wait id).pc.early = false := by
    by_contra hpc
    rw [Bool.not_eq_false] at hpc
    have hfresh := (hw.early hpc).2.2.2.1
    rw [hheld.taken] at hfresh
    simp at hfresh
  have hok : WaitOk ((s.wait id).complete .none) :=
    hw.complete hearly hheld.unlinked (fun _ => hheld.taken)
  rw [Wait.complete_of_not_done hheld.done] at hok ⊢
  have hconsumed := consumed_put_of_eq (w := { s.wait id with
    done := true, result := some .none, callback := false }) hlength rfl
  have hsuccesses := successes_put hlength { s.wait id with
    done := true, result := some .none, callback := false }
  rw [show (s.wait id).succeeded = false by
    simp [Wait.succeeded, hheld.result]] at hsuccesses
  change (s.put id _).successes = s.successes + 1 at hsuccesses
  have hpos := List.length_pos_of_mem hid
  constructor
  · exact put_waits hs hlength hok
  · intro other
    change other ∈ s.waiters ↔ ((s.put id _).wait other).linked = true
    rw [wait_put hlength]
    split
    · next heq =>
        rw [heq]
        exact hs.waiters id
    · exact hs.waiters other
  · exact hs.waitersNodup
  · intro other hother
    obtain ⟨hne, hmem⟩ := hs.poppedNodup.mem_erase_iff.mp hother
    change HeldOk ((s.put id _).wait other)
    rw [wait_put hlength, if_neg hne]
    exact hs.popped other hmem
  · exact hs.poppedNodup.erase id
  · exact hs.empty
  · change s.notified = s.pending + (s.put id _).consumed
    rw [hconsumed]
    exact hs.consumed
  · change s.notified = s.pending + (s.put id _).successes +
      (s.popped.erase id).length
    rw [hsuccesses, hs.balance, List.length_erase_of_mem hid]
    omega

theorem step_inv {s t : State} {a : Action} (hs : Inv s)
    (horderly : orderly s a = true) (hstep : step s a = some t) : Inv t := by
  cases a with
  | asyncWait =>
      obtain rfl := Option.some.inj hstep
      exact asyncWait_inv hs
  | await id =>
      simp only [step, Option.ite_none_right_eq_some] at hstep
      exact await_inv hs hstep.1 horderly hstep.2
  | stop id =>
      simp only [step, Option.ite_none_right_eq_some,
        Option.some.injEq] at hstep
      obtain ⟨⟨hid, _⟩, rfl⟩ := hstep
      exact stop_inv hs hid
  | callback id =>
      simp only [step, Option.ite_none_right_eq_some] at hstep
      exact callback_inv hs hstep.1 horderly hstep.2
  | notify =>
      obtain rfl := Option.some.inj hstep
      exact notify_inv hs horderly
  | complete id =>
      simp only [step, Option.ite_none_right_eq_some,
        Option.some.injEq] at hstep
      obtain ⟨hid, rfl⟩ := hstep
      exact complete_inv hs hid

/-- In every orderly run no notification is lost and none is invented. -/
theorem conserved_of_orderly {s : State}
    (hs : system.ReachableUnder (fun s a => orderly s a = true) s) :
    Conserved s := by
  have hinv : Inv s := hs.invariant start_inv
    (fun _ _ _ hinv horderly hstep => step_inv hinv horderly hstep)
  exact hinv.conserved

/-- Two waits are suspended; the first is notified, the second is cancelled by a
stop, and a further notification stays pending. -/
def notifiedAndStopped : List Action :=
  [.asyncWait, .await 0, .await 0, .await 0, .await 0, .await 0, .asyncWait,
    .await 1, .await 1, .await 1, .await 1, .await 1, .notify, .stop 1,
    .callback 1, .callback 1, .complete 0, .callback 1, .callback 1, .notify]

theorem conserved_notifiedAndStopped :
    ∃ s, s.quiescent = true ∧ s.notified = 2 ∧ s.pending = 1 ∧
      s.successes = 1 ∧ Conserved s := by
  obtain ⟨s, hs, hend⟩ := TransitionSystem.exists_reachableUnder_of_execUnder
    system (fun s a => orderly s a = true) notifiedAndStopped
    (fun s => s.quiescent && s.notified == 2 && s.pending == 1 &&
      s.successes == 1) (by decide)
  simp only [Bool.and_eq_true, beq_iff_eq] at hend
  exact ⟨s, hend.1.1.1, hend.1.1.2, hend.1.2, hend.2, conserved_of_orderly hs⟩

/-- A stop completes the only waiter after `notify` has taken it off the list
and before it completes it: the notification is gone. -/
def stoppedAfterPop : List Action :=
  [.asyncWait, .await 0, .await 0, .await 0, .await 0, .await 0, .notify,
    .stop 0, .callback 0, .callback 0, .callback 0, .callback 0, .complete 0]

theorem not_conserved_stoppedAfterPop :
    ¬ ∀ s, system.Reachable s → Conserved s := by
  intro hall
  obtain ⟨s, hs, hend⟩ := TransitionSystem.exists_reachable_of_exec system
    stoppedAfterPop
    (fun s => s.quiescent && s.notified == 1 && s.pending == 0 &&
      s.successes == 0) (by decide)
  simp only [Bool.and_eq_true, beq_iff_eq] at hend
  have hbalance := (hall s hs).balance hend.1.1.1
  rw [hend.1.1.2, hend.1.2, hend.2] at hbalance
  simp at hbalance

end ConditionEvent

end Iocoro
