/-
The waiters of `condition_event` with every step of `await_suspend`, the stop
callback, `notify` and the destruction of the event on its own.  The mutex and
the wait of `stop_cb.reset()` for a running callback are modelled, so a call can
block.
-/
import Mathlib.Data.List.Nodup
import Iocoro.FixedWidth
import Iocoro.Inventory
import Iocoro.ReactorTypes
import Iocoro.TransitionSystem

namespace Iocoro

namespace ConditionWaiter

/-- Where a call of `state::complete` stands: at the exchange of `done`, at
`stop_cb.reset()`, or at the posting of the coroutine. -/
inductive Stage where
  | exchange
  | reset
  | post
deriving DecidableEq, Repr

/-- Where `await_suspend` stands.  At `reset` it holds the mutex and has found
that it need not suspend; `over` carries what it returned. -/
inductive WaitPc where
  | check
  | arm
  | lock
  | reset
  | publish
  | recheck
  | cancelLock
  | cancel (stage : Stage)
  | over (suspended : Bool)
deriving DecidableEq, Repr

/-- Where the stop request stands at this waiter: at `dispatch` the stop is
requested and the callback not yet taken up. -/
inductive StopPc where
  | idle
  | dispatch
  | store
  | load
  | lock
  | complete (stage : Stage)
  | over
deriving DecidableEq, Repr

inductive Caller where
  | notify
  | destroy
deriving DecidableEq, Repr

/-- The call that took a waiter off the list, and where it stands in completing
it; `none` once it is done with it. -/
structure Taker where
  caller : Caller
  stage : Option Stage := some .exchange
deriving DecidableEq, Repr

/-- `await_suspend` has linked the waiter. -/
@[simp] def WaitPc.entered : WaitPc → Bool
  | .publish | .recheck | .cancelLock | .cancel _ | .over true => true
  | _ => false

/-- The stop callback is executing. -/
@[simp] def StopPc.running : StopPc → Bool
  | .store | .load | .lock | .complete _ => true
  | _ => false

/-- A call of `async_wait` with its `waiter_state`.  `callback` says that the
stop callback is registered, `handle` that `h` is set, `result` is what
`await_resume` returns, and `posted` counts the posted resumptions. -/
structure Wait where
  pc : WaitPc := .check
  stopPc : StopPc := .idle
  taker : Option Taker := none
  stopRequested : Bool := false
  callback : Bool := false
  cancelRequested : Bool := false
  suspended : Bool := false
  done : Bool := false
  linked : Bool := false
  handle : Bool := false
  result : Option ErrorCode := none
  posted : Nat := 0
deriving DecidableEq, Repr

/-- The next step of `state::complete`, and where the call goes on.
`stop_cb.reset()` waits for a callback that runs on another thread. -/
def Wait.complete (w : Wait) (ec : ErrorCode) (blocked : Bool) :
    Stage → Option (Wait × Option Stage)
  | .exchange =>
      if w.done then some (w, none)
      else some ({ w with done := true, result := some ec }, some .reset)
  | .reset =>
      if blocked then none
      else some ({ w with callback := false }, some .post)
  | .post =>
      if w.handle then
        some ({ w with handle := false, posted := w.posted + 1 }, none)
      else some (w, none)

/-- `locked` is the `await_suspend` that holds the mutex beyond one step.
`alive` says that `st_` still holds the state, `notifying` counts the calls of
`notify` that have loaded it and not taken the mutex, `destroying` says the same
of `abort_all_waiters`, and `aborting` is its vector of waiters still to
complete. -/
structure State where
  pending : Nat := 0
  waiters : List Nat := []
  destroyed : Bool := false
  locked : Option Nat := none
  waits : List Wait := []
  alive : Bool := true
  notifying : Nat := 0
  destroying : Bool := false
  aborting : List Nat := []
deriving DecidableEq, Repr

inductive Action where
  | asyncWait
  | await (id : Nat)
  | stop (id : Nat)
  | callback (id : Nat)
  | notify
  | notifyLock
  | complete (id : Nat)
  | destroy
  | destroyLock
  | abort
deriving DecidableEq, Repr

def State.wait (s : State) (id : Nat) : Wait := s.waits.getD id {}

def State.put (s : State) (id : Nat) (w : Wait) : State :=
  { s with waits := s.waits.set id w }

/-- The locked section of `cancel_waiter`. -/
def State.unlink (s : State) (id : Nat) (w : Wait) : Option State :=
  if s.locked.isSome then none
  else if w.linked then
    some { s.put id { w with linked := false } with
      waiters := s.waiters.erase id }
  else some (s.put id w)

/-- The locked section of `await_suspend`, up to `stop_cb.reset()` where it does
not suspend. -/
def State.enter (s : State) (id : Nat) (w : Wait) : Option State :=
  if s.locked.isSome then none
  else if s.destroyed then
    some { s.put id { w with pc := .reset, result := some .operationAborted }
      with locked := some id }
  else if 0 < s.pending then
    some { s.put id { w with pc := .reset, result := some .none } with
      locked := some id
      pending := s.pending - 1 }
  else
    some { s.put id { w with pc := .publish, linked := true } with
      waiters := s.waiters ++ [id] }

@[simp] def WaitPc.ofCancel : Option Stage → WaitPc
  | some stage => .cancel stage
  | none => .over true

@[simp] def StopPc.ofComplete : Option Stage → StopPc
  | some stage => .complete stage
  | none => .over

/-- The next step of `await_suspend`.  A stop requested before the callback is
installed runs it at once, and it finds the waiter not suspended. -/
def await (s : State) (id : Nat) (w : Wait) : Option State :=
  match w.pc with
  | .check =>
      if w.stopRequested then
        some (s.put id { w with
          pc := .over false, result := some .operationAborted })
      else some (s.put id { w with pc := .arm })
  | .arm => some (s.put id { w with
      pc := .lock
      handle := true
      callback := !w.stopRequested
      cancelRequested := w.stopRequested })
  | .lock => s.enter id w
  | .reset =>
      if w.stopPc.running then none
      else some { s.put id { w with pc := .over false, callback := false } with
        locked := none }
  | .publish => some (s.put id { w with pc := .recheck, suspended := true })
  | .recheck => some (s.put id { w with
      pc := if w.cancelRequested then .cancelLock else .over true })
  | .cancelLock => s.unlink id { w with pc := .cancel .exchange }
  | .cancel stage =>
      (w.complete .operationAborted w.stopPc.running stage).map fun r =>
        s.put id { r.1 with pc := .ofCancel r.2 }
  | .over _ => none

/-- The next step of the stop request at a waiter.  Its own
`stop_cb.reset()` does not wait for the callback it runs in. -/
def callback (s : State) (id : Nat) (w : Wait) : Option State :=
  match w.stopPc with
  | .dispatch => some (s.put id { w with
      stopPc := if w.callback then .store else .over, callback := false })
  | .store =>
      some (s.put id { w with stopPc := .load, cancelRequested := true })
  | .load => some (s.put id { w with
      stopPc := if w.suspended then .lock else .over })
  | .lock => s.unlink id { w with stopPc := .complete .exchange }
  | .complete stage =>
      (w.complete .operationAborted false stage).map fun r =>
        s.put id { r.1 with stopPc := .ofComplete r.2 }
  | _ => none

/-- The locked section of `notify`. -/
def State.notifyLock (s : State) : State :=
  if s.destroyed then s
  else match s.waiters with
    | id :: rest =>
        { s.put id { s.wait id with
            linked := false, taker := some { caller := .notify } } with
          waiters := rest }
    | [] => { s with pending := FixedWidth.incr 64 s.pending }

/-- The locked section of `abort_all_waiters`. -/
def State.destroyLock (s : State) : State :=
  { s with
    destroyed := true
    waits := s.waits.mapIdx fun id w =>
      if id ∈ s.waiters then
        { w with linked := false, taker := some { caller := .destroy } }
      else w
    waiters := []
    aborting := s.waiters }

/-- The next step of a `notify` or of `abort_all_waiters` in completing a waiter
it has taken off the list. -/
def Wait.takerStep (w : Wait) (caller : Caller) (ec : ErrorCode) :
    Option Wait :=
  match w.taker with
  | some ⟨by', some stage⟩ =>
      if by' = caller then
        (w.complete ec w.stopPc.running stage).map fun r =>
          { r.1 with taker := some ⟨caller, r.2⟩ }
      else none
  | _ => none

def Wait.aborting (w : Wait) : Bool :=
  match w.taker with
  | some ⟨.destroy, some _⟩ => true
  | _ => false

def step (s : State) : Action → Option State
  | .asyncWait =>
      if s.alive then some { s with waits := s.waits ++ [{}] } else none
  | .await id =>
      if id < s.waits.length then await s id (s.wait id) else none
  | .stop id =>
      if id < s.waits.length ∧ (s.wait id).stopRequested = false then
        some (s.put id { s.wait id with
          stopRequested := true
          stopPc := if (s.wait id).callback then .dispatch else .over })
      else none
  | .callback id =>
      if id < s.waits.length then callback s id (s.wait id) else none
  | .notify =>
      if s.alive then some { s with notifying := s.notifying + 1 } else none
  | .notifyLock =>
      if 0 < s.notifying ∧ s.locked = none then
        some { s.notifyLock with notifying := s.notifying - 1 }
      else none
  | .complete id =>
      if id < s.waits.length then
        ((s.wait id).takerStep .notify .none).map (s.put id)
      else none
  | .destroy =>
      if s.alive then some { s with alive := false, destroying := true }
      else none
  | .destroyLock =>
      if s.destroying ∧ s.locked = none then
        some { s.destroyLock with destroying := false }
      else none
  | .abort =>
      match s.aborting with
      | id :: rest =>
          ((s.wait id).takerStep .destroy .operationAborted).map fun w =>
            { s.put id w with
              aborting := if w.aborting then id :: rest else rest }
      | [] => none

def system : TransitionSystem State Action where
  start := {}
  step := step

/-- The steps of calls that are already made. -/
def Action.continues : Action → Bool
  | .await _ | .callback _ | .notifyLock | .complete _ | .destroyLock
  | .abort => true
  | _ => false

/-- No call is at work on the waiter. -/
def Wait.settled (w : Wait) : Bool :=
  (match w.pc with | .over _ => true | _ => false) &&
  (w.stopPc == .idle || w.stopPc == .over) &&
  (match w.taker with | some ⟨_, some _⟩ => false | _ => true)

/-- Every call has returned. -/
def State.quiet (s : State) : Bool :=
  s.notifying == 0 && !s.destroying && s.waits.all Wait.settled

/-- A `notify` has taken the waiter off the list. -/
def Wait.popped (w : Wait) : Bool :=
  match w.taker with
  | some ⟨.notify, _⟩ => true
  | _ => false

/-- What can resume a suspended waiter. -/
def State.woken (s : State) (id : Nat) : Bool :=
  (s.wait id).popped || (s.wait id).stopRequested || s.destroyed

/-- The law of resumption for one waiter. -/
structure ResumedOnce (s : State) (id : Nat) : Prop where
  atMostOnce : (s.wait id).posted ≤ 1
  notSuspended : (s.wait id).pc = .over false → (s.wait id).posted = 0
  onlyLinked : 0 < (s.wait id).posted → (s.wait id).pc.entered = true
  onlyWoken : 0 < (s.wait id).posted → s.woken id = true
  resumed : (s.wait id).pc.entered = true → s.woken id = true →
    (s.wait id).settled = true → (s.wait id).posted = 1
  notLeft : (s.wait id).stopRequested = true ∨ s.destroyed = true →
    (s.wait id).settled = true → id ∉ s.waiters


/-! ### The invariant of one waiter -/

/-- `await_suspend` has made the waiter and may still suspend. -/
@[simp] def WaitPc.armed : WaitPc → Bool
  | .lock | .publish | .recheck | .cancelLock | .cancel _ | .over true => true
  | _ => false

@[simp] def WaitPc.published : WaitPc → Bool
  | .recheck | .cancelLock | .cancel _ | .over true => true
  | _ => false

/-- `await_suspend` has still to look at `cancel_requested`, or has seen it and
not yet completed the waiter. -/
@[simp] def WaitPc.willCancel : WaitPc → Bool
  | .lock | .publish | .recheck | .cancelLock | .cancel .exchange => true
  | _ => false

/-- The stop request has still to complete the waiter. -/
@[simp] def StopPc.willCancel : StopPc → Bool
  | .dispatch | .store | .load | .lock | .complete .exchange => true
  | _ => false

@[simp] def WaitPc.stage : WaitPc → Option Stage
  | .cancel stage => some stage
  | _ => none

@[simp] def StopPc.stage : StopPc → Option Stage
  | .complete stage => some stage
  | _ => none

/-- A call of `complete` at this stage has won the exchange of `done` and not
yet posted the coroutine. -/
@[simp] def claim : Option Stage → Nat
  | some .reset | some .post => 1
  | _ => 0

theorem WaitPc.entered_of_published {pc : WaitPc} (h : pc.published = true) :
    pc.entered = true := by
  rcases pc with _ | _ | _ | _ | _ | _ | _ | _ | ⟨_ | _⟩ <;> simp_all

theorem WaitPc.armed_of_entered {pc : WaitPc} (h : pc.entered = true) :
    pc.armed = true := by
  rcases pc with _ | _ | _ | _ | _ | _ | _ | _ | ⟨_ | _⟩ <;> simp_all

theorem WaitPc.entered_of_stage {pc : WaitPc} (h : pc.stage.isSome = true) :
    pc.entered = true := by
  cases pc <;> simp_all

theorem WaitPc.willCancel_of_armed {pc : WaitPc} (harmed : pc.armed = true)
    (hpublished : pc.published = false) : pc.willCancel = true := by
  rcases pc with _ | _ | _ | _ | _ | _ | _ | _ | ⟨_ | _⟩ <;> simp_all

/-- Where the parties of a waiter can be, given its flags. -/
structure Flow (destroyed : Bool) (w : Wait) : Prop where
  handle : w.pc.armed = true → w.posted = 0 → w.handle = true
  fresh : w.pc.entered = false →
    w.done = false ∧ w.linked = false ∧ w.taker = none
  unarmed : w.pc = .check ∨ w.pc = .arm →
    w.callback = false ∧ (w.stopPc = .idle ∨ w.stopPc = .over)
  suspended : w.suspended = w.pc.published
  linked : w.linked = true → w.done = false ∧ w.taker = none
  unlinked : w.pc.stage.isSome = true ∨ w.stopPc.stage.isSome = true →
    w.linked = false
  kept : w.pc.entered = true → w.linked = true ∨ w.taker.isSome = true ∨
    w.done = true ∨ w.pc = .cancel .exchange ∨ w.stopPc = .complete .exchange
  taken : w.taker.isSome = true →
    w.taker.bind Taker.stage = some .exchange ∨ w.done = true
  destroyed : w.taker.any (fun t => t.caller = .destroy) = true →
    destroyed = true
  cancelled : w.cancelRequested = true → w.stopRequested = true
  cancelling : w.pc = .cancelLock ∨ w.pc.stage.isSome = true →
    w.stopRequested = true
  stopping : w.stopPc ≠ .idle → w.stopRequested = true
  stopSuspended : w.stopPc = .lock ∨ w.stopPc.stage.isSome = true →
    w.suspended = true
  stopLoad : w.stopPc = .load → w.cancelRequested = true
  callback : w.pc.armed = true → w.callback = false → w.done = true ∨
    (w.stopRequested = true ∧ w.stopPc ≠ .dispatch)
  heard : w.pc.armed = true → w.stopRequested = true → w.done = true ∨
    w.stopPc.willCancel = true ∨
    (w.cancelRequested = true ∧ w.pc.willCancel = true)
  caused : w.done = true → w.stopRequested = true ∨ w.taker.isSome = true

/-- Whoever wins the exchange of `done` posts the coroutine, and nobody else
does. -/
structure WaitOk (destroyed : Bool) (w : Wait) : Prop
    extends Flow destroyed w where
  count : w.posted + claim w.pc.stage + claim w.stopPc.stage +
    claim (w.taker.bind Taker.stage) = w.done.toNat

theorem waitOk_default (destroyed : Bool) : WaitOk destroyed {} := by
  constructor
  · constructor <;> simp
  · simp

namespace WaitOk

variable {destroyed : Bool} {w : Wait}

/-! ### Steps of `await_suspend` -/

/-- `await_suspend` returns `false`, or has only `stop_cb.reset()` left before
it does. -/
theorem decline (hw : WaitOk destroyed w) (hpc : w.pc.entered = false)
    {pc : WaitPc} (hnew : pc = .reset ∨ pc = .over false) (callback : Bool)
    (ec : Option ErrorCode) :
    WaitOk destroyed { w with pc := pc, callback := callback, result := ec } := by
  have hfresh := hw.fresh hpc
  have hstage : w.pc.stage = none := by
    rw [← Option.not_isSome_iff_eq_none]
    intro hsome
    rw [WaitPc.entered_of_stage hsome] at hpc
    simp at hpc
  have hsuspended : w.suspended = false := by
    rw [hw.suspended, ← Bool.not_eq_true]
    intro hpublished
    rw [WaitPc.entered_of_published hpublished] at hpc
    simp at hpc
  have hcount := hw.count
  rw [hstage] at hcount
  rcases hnew with rfl | rfl
  all_goals exact { hw with
    count := hcount
    handle := by simp
    fresh := fun _ => hfresh
    unarmed := by simp
    suspended := hsuspended
    unlinked := fun _ => hfresh.2.1
    kept := by simp
    cancelling := by simp
    callback := by simp
    heard := by simp }

theorem start (hw : WaitOk destroyed w) (hpc : w.pc = .check) :
    WaitOk destroyed { w with pc := .arm } := by
  have hfresh := hw.fresh (by simp [hpc])
  exact { hw with
    count := by simpa [hpc] using hw.count
    handle := by simp
    fresh := fun _ => hfresh
    unarmed := fun _ => hw.unarmed (.inl hpc)
    suspended := by simp [hw.suspended, hpc]
    unlinked := fun _ => hfresh.2.1
    kept := by simp
    cancelling := by simp
    callback := by simp
    heard := by simp }

theorem arm (hw : WaitOk destroyed w) (hpc : w.pc = .arm) :
    WaitOk destroyed { w with
      pc := .lock
      handle := true
      callback := !w.stopRequested
      cancelRequested := w.stopRequested } := by
  have hfresh := hw.fresh (by simp [hpc])
  have hidle := (hw.unarmed (.inr hpc)).2
  exact { hw with
    count := by simpa [hpc] using hw.count
    handle := fun _ _ => rfl
    fresh := fun _ => hfresh
    unarmed := by simp
    suspended := by simp [hw.suspended, hpc]
    unlinked := fun _ => hfresh.2.1
    kept := by simp
    cancelled := id
    cancelling := by simp
    stopLoad := by rcases hidle with hidle | hidle <;> simp [hidle]
    callback := fun _ hcallback => .inr ⟨by simpa using hcallback, by
      rcases hidle with hidle | hidle <;> simp [hidle]⟩
    heard := fun _ hstop => .inr (.inr ⟨hstop, rfl⟩) }

theorem link (hw : WaitOk destroyed w) (hpc : w.pc = .lock) :
    WaitOk destroyed { w with pc := .publish, linked := true } := by
  obtain ⟨hdone, -, htaker⟩ := hw.fresh (by simp [hpc])
  have hquiet : w.suspended = false := by simp [hw.suspended, hpc]
  have hstage : ¬ w.stopPc.stage.isSome = true := by
    intro hsome
    rw [hw.stopSuspended (.inr hsome)] at hquiet
    simp at hquiet
  exact { hw with
    count := by simpa [hpc] using hw.count
    handle := fun _ => hw.handle (by simp [hpc])
    fresh := by simp
    unarmed := by simp
    suspended := by simp [hquiet]
    linked := fun _ => ⟨hdone, htaker⟩
    unlinked := fun hsome => by
      rcases hsome with hsome | hsome
      · simp at hsome
      · exact absurd hsome hstage
    kept := fun _ => .inl rfl
    cancelling := by simp
    callback := fun _ => hw.callback (by simp [hpc])
    heard := fun _ => by simpa [hpc] using hw.heard (by simp [hpc]) }

theorem publish (hw : WaitOk destroyed w) (hpc : w.pc = .publish) :
    WaitOk destroyed { w with pc := .recheck, suspended := true } :=
  { hw with
    count := by simpa [hpc] using hw.count
    handle := fun _ => hw.handle (by simp [hpc])
    fresh := by simp
    unarmed := by simp
    suspended := by simp
    unlinked := by simpa [hpc] using hw.unlinked
    kept := fun _ => by simpa [hpc] using hw.kept (by simp [hpc])
    cancelling := by simp
    stopSuspended := fun _ => rfl
    callback := fun _ => hw.callback (by simp [hpc])
    heard := fun _ => by simpa [hpc] using hw.heard (by simp [hpc]) }

theorem recheck (hw : WaitOk destroyed w) (hpc : w.pc = .recheck) :
    WaitOk destroyed { w with
      pc := if w.cancelRequested then .cancelLock else .over true } := by
  have hheard := hw.heard (by simp [hpc])
  split
  · next hcancel =>
      exact { hw with
        count := by simpa [hpc] using hw.count
        handle := fun _ => hw.handle (by simp [hpc])
        fresh := by simp
        unarmed := by simp
        suspended := by simp [hw.suspended, hpc]
        unlinked := by simpa [hpc] using hw.unlinked
        kept := fun _ => by simpa [hpc] using hw.kept (by simp [hpc])
        cancelling := fun _ => hw.cancelled hcancel
        callback := fun _ => hw.callback (by simp [hpc])
        heard := fun _ _ => .inr (.inr ⟨hcancel, rfl⟩) }
  · next hcancel =>
      exact { hw with
        count := by simpa [hpc] using hw.count
        handle := fun _ => hw.handle (by simp [hpc])
        fresh := by simp
        unarmed := by simp
        suspended := by simp [hw.suspended, hpc]
        unlinked := by simpa [hpc] using hw.unlinked
        kept := fun _ => by simpa [hpc] using hw.kept (by simp [hpc])
        cancelling := by simp
        callback := fun _ => hw.callback (by simp [hpc])
        heard := fun _ hstop => (hheard hstop).imp_right fun hleft =>
          hleft.imp_right fun hown => absurd hown.1 hcancel }

theorem cancelLock (hw : WaitOk destroyed w) (hpc : w.pc = .cancelLock) :
    WaitOk destroyed { w with pc := .cancel .exchange, linked := false } :=
  { hw with
    count := by simpa [hpc] using hw.count
    handle := fun _ => hw.handle (by simp [hpc])
    fresh := by simp
    unarmed := by simp
    suspended := by simp [hw.suspended, hpc]
    linked := by simp
    unlinked := fun _ => rfl
    kept := fun _ => by simp
    cancelling := fun _ => hw.cancelling (.inl hpc)
    callback := fun _ => hw.callback (by simp [hpc])
    heard := fun _ => by simpa [hpc] using hw.heard (by simp [hpc]) }

/-! ### Steps of the stop request -/

theorem stop (hw : WaitOk destroyed w) (hstop : w.stopRequested = false) :
    WaitOk destroyed { w with
      stopRequested := true
      stopPc := if w.callback then .dispatch else .over } := by
  have hidle : w.stopPc = .idle := by
    by_contra hne
    rw [hw.stopping hne] at hstop
    simp at hstop
  have hcount := hw.count
  have hkept := hw.kept
  have hunlinked := hw.unlinked
  simp only [hidle] at hcount hkept hunlinked
  have hmissing : w.pc.armed = true → w.callback = false → w.done = true := by
    simpa [hstop] using hw.callback
  cases hcallback : w.callback with
  | true =>
      exact { hw with
        count := by simpa using hcount
        unarmed := fun hearly => by
          simpa [hcallback] using (hw.unarmed hearly).1
        unlinked := by simpa using hunlinked
        kept := by simpa using hkept
        cancelled := fun _ => rfl
        cancelling := fun _ => rfl
        stopping := fun _ => rfl
        stopSuspended := by simp
        stopLoad := by simp
        callback := fun _ hgone => by simp at hgone
        heard := by simp
        caused := fun _ => .inl rfl }
  | false =>
      exact { hw with
        count := by simpa using hcount
        unarmed := fun _ => by simp
        unlinked := by simpa using hunlinked
        kept := by simpa using hkept
        cancelled := fun _ => rfl
        cancelling := fun _ => rfl
        stopping := fun _ => rfl
        stopSuspended := by simp
        stopLoad := by simp
        callback := fun harmed _ => .inl (hmissing harmed hcallback)
        heard := fun harmed _ => .inl (hmissing harmed hcallback)
        caused := fun _ => .inl rfl }

theorem dispatch (hw : WaitOk destroyed w) (hpc : w.stopPc = .dispatch) :
    WaitOk destroyed { w with
      stopPc := if w.callback then .store else .over, callback := false } := by
  have hstop := hw.stopping (by simp [hpc])
  have hcount := hw.count
  have hkept := hw.kept
  have hunlinked := hw.unlinked
  have hunarmed := hw.unarmed
  have hcallback := hw.callback
  simp only [hpc] at hcount hkept hunlinked hunarmed hcallback
  split
  · exact { hw with
      count := by simpa using hcount
      unarmed := fun hearly => by simpa using hunarmed hearly
      unlinked := by simpa using hunlinked
      kept := by simpa using hkept
      stopping := fun _ => hstop
      stopSuspended := by simp
      stopLoad := by simp
      callback := fun _ _ => .inr ⟨hstop, by simp⟩
      heard := by simp }
  · next hgone =>
      rw [Bool.not_eq_true] at hgone
      exact { hw with
        count := by simpa using hcount
        unarmed := fun _ => by simp
        unlinked := by simpa using hunlinked
        kept := by simpa using hkept
        stopping := fun _ => hstop
        stopSuspended := by simp
        stopLoad := by simp
        callback := fun _ _ => .inr ⟨hstop, by simp⟩
        heard := fun harmed _ =>
          .inl (by simpa using hcallback harmed hgone) }

theorem store (hw : WaitOk destroyed w) (hpc : w.stopPc = .store) :
    WaitOk destroyed { w with stopPc := .load, cancelRequested := true } := by
  have hstop := hw.stopping (by simp [hpc])
  exact { hw with
    count := by simpa [hpc] using hw.count
    unarmed := fun hearly => by simpa [hpc] using hw.unarmed hearly
    unlinked := by simpa [hpc] using hw.unlinked
    kept := by simpa [hpc] using hw.kept
    cancelled := fun _ => hstop
    stopping := fun _ => hstop
    stopSuspended := by simp
    stopLoad := fun _ => rfl
    callback := by simpa [hpc] using hw.callback
    heard := by simp }

theorem load (hw : WaitOk destroyed w) (hpc : w.stopPc = .load) :
    WaitOk destroyed { w with
      stopPc := if w.suspended then .lock else .over } := by
  have hstop := hw.stopping (by simp [hpc])
  have hcount := hw.count
  have hkept := hw.kept
  have hunlinked := hw.unlinked
  have hunarmed := hw.unarmed
  have hcallback := hw.callback
  simp only [hpc] at hcount hkept hunlinked hunarmed hcallback
  split
  · next hsuspended =>
      exact { hw with
        count := by simpa using hcount
        unarmed := fun hearly => by simpa using hunarmed hearly
        unlinked := by simpa using hunlinked
        kept := by simpa using hkept
        stopping := fun _ => hstop
        stopSuspended := fun _ => hsuspended
        stopLoad := by simp
        callback := by simpa using hcallback
        heard := by simp }
  · next hsuspended =>
      have hpublished : w.pc.published = false := by
        rw [← hw.suspended]
        simpa using hsuspended
      exact { hw with
        count := by simpa using hcount
        unarmed := fun hearly => by simpa using hunarmed hearly
        unlinked := by simpa using hunlinked
        kept := by simpa using hkept
        stopping := fun _ => hstop
        stopSuspended := by simp
        stopLoad := by simp
        callback := by simpa using hcallback
        heard := fun harmed _ =>
          .inr (.inr ⟨hw.stopLoad hpc,
            WaitPc.willCancel_of_armed harmed hpublished⟩) }

theorem stopLock (hw : WaitOk destroyed w) (hpc : w.stopPc = .lock) :
    WaitOk destroyed { w with
      stopPc := .complete .exchange, linked := false } := by
  have hstop := hw.stopping (by simp [hpc])
  have hsuspended := hw.stopSuspended (.inl hpc)
  exact { hw with
    count := by simpa [hpc] using hw.count
    fresh := fun hfresh =>
      ⟨(hw.fresh hfresh).1, rfl, (hw.fresh hfresh).2.2⟩
    unarmed := fun hearly => by simpa [hpc] using hw.unarmed hearly
    linked := by simp
    unlinked := fun _ => rfl
    kept := by simp
    stopping := fun _ => hstop
    stopSuspended := fun _ => hsuspended
    stopLoad := by simp
    callback := by simpa [hpc] using hw.callback
    heard := by simp }

/-! ### Removal from the list -/

theorem take (hw : WaitOk destroyed w) (hlinked : w.linked = true)
    (caller : Caller) {destroyed' : Bool}
    (hdestroyed : caller = .destroy → destroyed' = true) :
    WaitOk destroyed' { w with
      linked := false, taker := some { caller := caller } } := by
  obtain ⟨hdone, htaker⟩ := hw.linked hlinked
  have hentered : w.pc.entered = true := by
    by_contra hfresh
    rw [Bool.not_eq_true] at hfresh
    rw [(hw.fresh hfresh).2.1] at hlinked
    simp at hlinked
  exact { hw with
    count := by simpa [htaker] using hw.count
    fresh := fun hfresh => by
      rw [hentered] at hfresh
      simp at hfresh
    linked := by simp
    unlinked := fun _ => rfl
    kept := by simp
    taken := by simp
    destroyed := by simpa using hdestroyed
    caused := by simp }

/-! ### Completion -/

/-- A call of `complete` that won the exchange finds the handle in place. -/
theorem of_claim (hw : WaitOk destroyed w)
    (hclaim : 0 < claim w.pc.stage + claim w.stopPc.stage +
      claim (w.taker.bind Taker.stage)) :
    w.done = true ∧ w.posted = 0 := by
  have hcount := hw.count
  cases hdone : w.done with
  | true =>
      rw [hdone, Bool.toNat_true] at hcount
      exact ⟨rfl, by omega⟩
  | false =>
      rw [hdone, Bool.toNat_false] at hcount
      omega

end WaitOk

/-- What a step of `complete` does to a waiter that is off the list: `v` is the
waiter after it and `next` where the call goes on. -/
structure Completed (destroyed : Bool) (w v : Wait) (stage : Stage)
    (next : Option Stage) : Prop extends Flow destroyed v where
  pc : v.pc = w.pc
  stopPc : v.stopPc = w.stopPc
  taker : v.taker = w.taker
  sameLinked : v.linked = w.linked
  sameStop : v.stopRequested = w.stopRequested
  done : v.done = true
  moved : next ≠ some .exchange
  balance : v.posted + claim next + w.done.toNat =
    w.posted + claim (some stage) + v.done.toNat

namespace WaitOk

variable {destroyed : Bool} {w : Wait}

theorem complete (hw : WaitOk destroyed w) {v : Wait} {ec : ErrorCode}
    {blocked : Bool} {stage : Stage} {next : Option Stage}
    (hentered : w.pc.entered = true) (hlinked : w.linked = false)
    (hcaused : w.stopRequested = true ∨ w.taker.isSome = true)
    (hclaim : claim (some stage) ≤ claim w.pc.stage + claim w.stopPc.stage +
      claim (w.taker.bind Taker.stage))
    (hstep : w.complete ec blocked stage = some (v, next)) :
    Completed destroyed w v stage next := by
  have harmed := WaitPc.armed_of_entered hentered
  cases stage with
  | exchange =>
      simp only [Wait.complete] at hstep
      split at hstep
      · next hdone =>
          simp only [Option.some.injEq, Prod.mk.injEq] at hstep
          obtain ⟨rfl, rfl⟩ := hstep
          exact { hw with
            pc := rfl, stopPc := rfl, taker := rfl, sameLinked := rfl
            sameStop := rfl, done := hdone, moved := by simp, balance := rfl }
      · next hdone =>
          rw [Bool.not_eq_true] at hdone
          simp only [Option.some.injEq, Prod.mk.injEq] at hstep
          obtain ⟨rfl, rfl⟩ := hstep
          exact { hw with
            fresh := fun hfresh => by
              rw [hentered] at hfresh
              simp at hfresh
            linked := by simp [hlinked]
            kept := by simp
            taken := by simp
            callback := by simp
            heard := by simp
            caused := fun _ => hcaused
            pc := rfl, stopPc := rfl, taker := rfl, sameLinked := rfl
            sameStop := rfl, done := rfl, moved := by simp
            balance := by simp [hdone] }
  | reset =>
      obtain ⟨hdone, -⟩ := hw.of_claim (lt_of_lt_of_le Nat.zero_lt_one hclaim)
      simp only [Wait.complete, Option.ite_none_left_eq_some,
        Option.some.injEq, Prod.mk.injEq] at hstep
      obtain ⟨-, rfl, rfl⟩ := hstep
      exact { hw with
        unarmed := fun hearly => ⟨rfl, (hw.unarmed hearly).2⟩
        callback := fun _ _ => .inl hdone
        pc := rfl, stopPc := rfl, taker := rfl, sameLinked := rfl
        sameStop := rfl, done := hdone, moved := by simp, balance := rfl }
  | post =>
      obtain ⟨hdone, hposted⟩ :=
        hw.of_claim (lt_of_lt_of_le Nat.zero_lt_one hclaim)
      simp only [Wait.complete, hw.handle harmed hposted, if_true,
        Option.some.injEq, Prod.mk.injEq] at hstep
      obtain ⟨rfl, rfl⟩ := hstep
      exact { hw with
        handle := by simp
        pc := rfl, stopPc := rfl, taker := rfl, sameLinked := rfl
        sameStop := rfl, done := hdone, moved := by simp, balance := rfl }

/-- A step of `complete` in `await_suspend`. -/
theorem cancel (hw : WaitOk destroyed w) {v : Wait} {ec : ErrorCode}
    {blocked : Bool} {stage : Stage} {next : Option Stage}
    (hpc : w.pc = .cancel stage)
    (hstep : w.complete ec blocked stage = some (v, next)) :
    Completed destroyed w v stage next ∧
      WaitOk destroyed { v with pc := .ofCancel next } := by
  have hlinked := hw.unlinked (.inl (by simp [hpc]))
  have hstop := hw.cancelling (.inr (by simp [hpc]))
  have hv := hw.complete (by simp [hpc]) hlinked (.inl hstop)
    (by rw [hpc]; simp only [WaitPc.stage]; omega) hstep
  have hcount := hw.count
  have hbalance := hv.balance
  have hstage : (WaitPc.ofCancel next).stage = next := by
    cases next <;> rfl
  have hentered : (WaitPc.ofCancel next).entered = true := by
    cases next <;> rfl
  refine ⟨hv, { hv.toFlow with
    handle := fun _ => hv.handle (by rw [hv.pc, hpc]; rfl)
    fresh := fun hfresh => by
      rw [hentered] at hfresh
      simp at hfresh
    unarmed := by cases next <;> simp
    suspended := by
      rw [show v.suspended = true by rw [hv.suspended, hv.pc, hpc]; rfl]
      cases next <;> rfl
    unlinked := fun _ => hv.sameLinked.trans hlinked
    kept := fun _ => .inr (.inr (.inl hv.done))
    cancelling := fun _ => hv.cancelling (.inr (by rw [hv.pc, hpc]; rfl))
    callback := fun _ _ => .inl hv.done
    heard := fun _ _ => .inl hv.done
    count := ?_ }⟩
  rw [hpc] at hcount
  change v.posted + claim (WaitPc.ofCancel next).stage + claim v.stopPc.stage +
    claim (v.taker.bind Taker.stage) = v.done.toNat
  rw [hstage, hv.stopPc, hv.taker]
  simp only [WaitPc.stage] at hcount
  omega

/-- A step of `complete` in the stop callback. -/
theorem stopComplete (hw : WaitOk destroyed w) {v : Wait} {ec : ErrorCode}
    {blocked : Bool} {stage : Stage} {next : Option Stage}
    (hpc : w.stopPc = .complete stage)
    (hstep : w.complete ec blocked stage = some (v, next)) :
    Completed destroyed w v stage next ∧
      WaitOk destroyed { v with stopPc := .ofComplete next } := by
  have hlinked := hw.unlinked (.inr (by simp [hpc]))
  have hstop := hw.stopping (by simp [hpc])
  have hsuspended := hw.stopSuspended (.inr (by simp [hpc]))
  have hentered : w.pc.entered = true := by
    rw [hw.suspended] at hsuspended
    exact WaitPc.entered_of_published hsuspended
  have hv := hw.complete hentered hlinked (.inl hstop)
    (by rw [hpc]; simp only [StopPc.stage]; omega) hstep
  have hcount := hw.count
  have hbalance := hv.balance
  have hstage : (StopPc.ofComplete next).stage = next := by
    cases next <;> rfl
  refine ⟨hv, { hv.toFlow with
    unarmed := fun hearly => by
      rw [← hv.pc] at hentered
      rcases hearly with hearly | hearly <;>
        rw [show v.pc = _ from hearly] at hentered <;> simp at hentered
    unlinked := fun _ => hv.sameLinked.trans hlinked
    kept := fun _ => .inr (.inr (.inl hv.done))
    stopping := fun _ => hv.stopping (by rw [hv.stopPc, hpc]; simp)
    stopSuspended := fun _ =>
      hv.stopSuspended (.inr (by rw [hv.stopPc, hpc]; rfl))
    stopLoad := by cases next <;> simp
    callback := fun _ _ => .inl hv.done
    heard := fun _ _ => .inl hv.done
    count := ?_ }⟩
  rw [hpc] at hcount
  change v.posted + claim v.pc.stage + claim (StopPc.ofComplete next).stage +
    claim (v.taker.bind Taker.stage) = v.done.toNat
  rw [hstage, hv.pc, hv.taker]
  simp only [StopPc.stage] at hcount
  omega

/-- A step of `complete` in the call that took the waiter off the list. -/
theorem takerComplete (hw : WaitOk destroyed w) {v : Wait} {ec : ErrorCode}
    {blocked : Bool} {caller : Caller} {stage : Stage} {next : Option Stage}
    (htaker : w.taker = some ⟨caller, some stage⟩)
    (hstep : w.complete ec blocked stage = some (v, next)) :
    Completed destroyed w v stage next ∧
      WaitOk destroyed { v with taker := some ⟨caller, next⟩ } := by
  have hentered : w.pc.entered = true := by
    by_contra hfresh
    rw [Bool.not_eq_true] at hfresh
    rw [(hw.fresh hfresh).2.2] at htaker
    simp at htaker
  have hlinked : w.linked = false := by
    by_contra hlinked
    rw [(hw.linked (Bool.eq_true_of_not_eq_false hlinked)).2] at htaker
    simp at htaker
  have hv := hw.complete hentered hlinked (.inr (by simp [htaker]))
    (by rw [htaker]; simp only [Option.bind_some]; omega) hstep
  have hcount := hw.count
  have hbalance := hv.balance
  refine ⟨hv, { hv.toFlow with
    fresh := fun hfresh => by
      rw [← hv.pc, show v.pc.entered = false from hfresh] at hentered
      simp at hentered
    linked := fun hstill => by
      rw [← hv.sameLinked, show v.linked = true from hstill] at hlinked
      simp at hlinked
    kept := fun _ => .inr (.inl rfl)
    taken := fun _ => .inr hv.done
    destroyed := fun hdestroy => hw.destroyed (by simpa [htaker] using hdestroy)
    caused := fun _ => .inr rfl
    count := ?_ }⟩
  rw [htaker] at hcount
  change v.posted + claim v.pc.stage + claim v.stopPc.stage +
    claim ((some (Taker.mk caller next)).bind Taker.stage) = v.done.toNat
  rw [hv.pc, hv.stopPc]
  simp only [Option.bind_some] at hcount ⊢
  omega

end WaitOk

/-! ### The invariant of the event -/

structure Inv (s : State) : Prop where
  waits : ∀ id, WaitOk s.destroyed (s.wait id)
  waiters : ∀ id, id ∈ s.waiters ↔ (s.wait id).linked = true
  waitersNodup : s.waiters.Nodup
  locked : ∀ id, s.locked = some id ↔ (s.wait id).pc = .reset
  aborting : ∀ id, id ∈ s.aborting ↔ (s.wait id).aborting = true
  abortingNodup : s.aborting.Nodup
  destroyed : s.destroyed = true → s.waiters = []
  destroying : s.destroying = true → s.destroyed = false
  alive : s.alive = true → s.destroying = false ∧ s.destroyed = false

theorem Wait.aborting_congr {v w : Wait} (htaker : v.taker = w.taker) :
    v.aborting = w.aborting := by
  simp [Wait.aborting, htaker]

theorem start_inv : Inv system.start := by
  constructor <;> simp [system, State.wait, Wait.aborting]
  exact waitOk_default false

theorem wait_put {s : State} {id : Nat} (hid : id < s.waits.length) (w : Wait)
    (other : Nat) :
    (s.put id w).wait other = if other = id then w else s.wait other :=
  Inventory.getD_set hid w {} other

theorem wait_of_length_le {s : State} {id : Nat} (hid : s.waits.length ≤ id) :
    s.wait id = {} := by
  simp [State.wait, List.getD_eq_getElem?_getD, List.getElem?_eq_none hid]

theorem lt_length_of_ne {s : State} {id : Nat} (hne : s.wait id ≠ {}) :
    id < s.waits.length := by
  by_contra hid
  exact hne (wait_of_length_le (not_lt.mp hid))

theorem lt_length_of_linked {s : State} {id : Nat}
    (hlinked : (s.wait id).linked = true) : id < s.waits.length :=
  lt_length_of_ne fun hdefault => by simp [hdefault] at hlinked

/-- A step at one waiter: what the event knows of it changes with it, and
nothing else does. -/
theorem update_inv {s t : State} (hs : Inv s) {id : Nat} {w : Wait}
    (hid : id < s.waits.length) (hw : WaitOk s.destroyed w)
    (hwaits : t.waits = s.waits.set id w)
    (hdestroyed : t.destroyed = s.destroyed)
    (hdestroying : t.destroying = s.destroying) (halive : t.alive = s.alive)
    (hwaiters : ∀ other, other ∈ t.waiters ↔
      if other = id then w.linked = true else other ∈ s.waiters)
    (hnodup : t.waiters.Nodup)
    (hlocked : ∀ other, t.locked = some other ↔
      if other = id then w.pc = .reset else s.locked = some other)
    (haborting : ∀ other, other ∈ t.aborting ↔
      if other = id then w.aborting = true else other ∈ s.aborting)
    (habortingNodup : t.aborting.Nodup)
    (hempty : s.destroyed = true → t.waiters = []) : Inv t := by
  have hwait : ∀ other,
      t.wait other = if other = id then w else s.wait other := by
    intro other
    rw [State.wait, hwaits]
    exact wait_put hid w other
  constructor
  · intro other
    rw [hwait, hdestroyed]
    split
    · exact hw
    · exact hs.waits other
  · intro other
    rw [hwait, hwaiters]
    split
    · exact Iff.rfl
    · exact hs.waiters other
  · exact hnodup
  · intro other
    rw [hwait, hlocked]
    split
    · exact Iff.rfl
    · exact hs.locked other
  · intro other
    rw [hwait, haborting]
    split
    · exact Iff.rfl
    · exact hs.aborting other
  · exact habortingNodup
  · rw [hdestroyed]
    exact hempty
  · rw [hdestroying, hdestroyed]
    exact hs.destroying
  · rw [halive, hdestroying, hdestroyed]
    exact hs.alive

section Same

variable {s : State} (hs : Inv s) {id : Nat} {w : Wait}
include hs

theorem waiters_same (hlinked : w.linked = (s.wait id).linked) (other : Nat) :
    other ∈ s.waiters ↔
      if other = id then w.linked = true else other ∈ s.waiters := by
  split
  · next heq => rw [heq, hlinked, hs.waiters id]
  · exact Iff.rfl

theorem locked_same (hpc : w.pc = .reset ↔ (s.wait id).pc = .reset)
    (other : Nat) :
    s.locked = some other ↔
      if other = id then w.pc = .reset else s.locked = some other := by
  split
  · next heq => rw [heq, hpc, hs.locked id]
  · exact Iff.rfl

theorem aborting_same (haborting : w.aborting = (s.wait id).aborting)
    (other : Nat) :
    other ∈ s.aborting ↔
      if other = id then w.aborting = true else other ∈ s.aborting := by
  split
  · next heq => rw [heq, haborting, hs.aborting id]
  · exact Iff.rfl

/-- A step of one party at one waiter that leaves the list and the mutex
alone. -/
theorem put_inv (hid : id < s.waits.length) (hw : WaitOk s.destroyed w)
    (hlinked : w.linked = (s.wait id).linked)
    (hpc : w.pc = .reset ↔ (s.wait id).pc = .reset)
    (haborting : w.aborting = (s.wait id).aborting) : Inv (s.put id w) :=
  update_inv hs hid hw rfl rfl rfl rfl (waiters_same hs hlinked)
    hs.waitersNodup (locked_same hs hpc) (aborting_same hs haborting)
    hs.abortingNodup hs.destroyed

/-- The locked section of `cancel_waiter`. -/
theorem unlink_inv {t : State} (hstep : s.unlink id w = some t)
    (hid : id < s.waits.length)
    (hw : WaitOk s.destroyed { w with linked := false })
    (hlinked : w.linked = (s.wait id).linked)
    (hpc : w.pc = .reset ↔ (s.wait id).pc = .reset)
    (haborting : w.aborting = (s.wait id).aborting) : Inv t := by
  unfold State.unlink at hstep
  split at hstep
  · simp at hstep
  split at hstep
  · obtain rfl := Option.some.inj hstep
    refine update_inv hs hid hw rfl rfl rfl rfl ?_ (hs.waitersNodup.erase id)
      (locked_same hs hpc) (aborting_same hs haborting) hs.abortingNodup ?_
    · intro other
      change other ∈ s.waiters.erase id ↔ _
      rw [hs.waitersNodup.mem_erase_iff]
      split
      · next heq => simp [heq]
      · next hne => simp [hne]
    · intro hdestroyed
      change s.waiters.erase id = []
      rw [hs.destroyed hdestroyed]
      rfl
  · next hgone =>
      obtain rfl := Option.some.inj hstep
      rw [Bool.not_eq_true] at hgone
      have hsame : { w with linked := false } = w := by
        cases w
        simp_all
      rw [hsame] at hw
      exact put_inv hs hid hw hlinked hpc haborting

end Same

/-- The locked section of `await_suspend`. -/
theorem enter_inv {s t : State} (hs : Inv s) {id : Nat}
    (hid : id < s.waits.length) (hpc : (s.wait id).pc = .lock)
    (hstep : s.enter id (s.wait id) = some t) : Inv t := by
  have hw := hs.waits id
  obtain ⟨-, hlinked, htaker⟩ := hw.fresh (by simp [hpc])
  have hdecline : ∀ ec, WaitOk s.destroyed
      { s.wait id with pc := .reset, result := ec } := fun ec =>
    hw.decline (by simp [hpc]) (.inl rfl) (s.wait id).callback ec
  unfold State.enter at hstep
  split at hstep
  · simp at hstep
  next hfree =>
  have hfree : s.locked = none := by simpa using hfree
  have hlock : ∀ other, some id = some other ↔
      if other = id then WaitPc.reset = .reset else s.locked = some other := by
    intro other
    split
    · next heq => simp [heq]
    · next hne => simp [hfree, Ne.symm hne]
  split at hstep
  · obtain rfl := Option.some.inj hstep
    exact update_inv hs hid (hdecline _) rfl rfl rfl rfl
      (waiters_same hs rfl) hs.waitersNodup hlock (aborting_same hs rfl)
      hs.abortingNodup hs.destroyed
  next hlive =>
  split at hstep
  · obtain rfl := Option.some.inj hstep
    exact update_inv hs hid (hdecline _) rfl rfl rfl rfl
      (waiters_same hs rfl) hs.waitersNodup hlock (aborting_same hs rfl)
      hs.abortingNodup hs.destroyed
  · obtain rfl := Option.some.inj hstep
    have hold : id ∉ s.waiters := by
      rw [hs.waiters id, hlinked]
      simp
    refine update_inv hs hid (hw.link hpc) rfl rfl rfl rfl ?_ ?_
      (locked_same hs (by simp [hpc])) (aborting_same hs rfl)
      hs.abortingNodup (fun hdestroyed => absurd hdestroyed hlive)
    · intro other
      change other ∈ s.waiters ++ [id] ↔ _
      split
      · next heq => simp [heq]
      · next hne => simp [hne]
    · change (s.waiters ++ [id]).Nodup
      rw [List.nodup_append_comm]
      exact List.nodup_cons.mpr ⟨hold, hs.waitersNodup⟩

theorem await_inv {s t : State} (hs : Inv s) {id : Nat}
    (hid : id < s.waits.length)
    (hstep : await s id (s.wait id) = some t) : Inv t := by
  have hw := hs.waits id
  unfold await at hstep
  split at hstep
  · next hpc =>
      split at hstep
      · obtain rfl := Option.some.inj hstep
        exact put_inv hs hid
          (hw.decline (by simp [hpc]) (.inr rfl) (s.wait id).callback _) rfl
          (by simp [hpc]) rfl
      · obtain rfl := Option.some.inj hstep
        exact put_inv hs hid (hw.start hpc) rfl (by simp [hpc]) rfl
  · next hpc =>
      obtain rfl := Option.some.inj hstep
      exact put_inv hs hid (hw.arm hpc) rfl (by simp [hpc]) rfl
  · next hpc => exact enter_inv hs hid hpc hstep
  · next hpc =>
      split at hstep
      · simp at hstep
      · obtain rfl := Option.some.inj hstep
        have hlocked := (hs.locked id).mpr hpc
        refine update_inv hs hid
          (hw.decline (by simp [hpc]) (.inr rfl) false _) rfl rfl rfl rfl
          (waiters_same hs rfl) hs.waitersNodup ?_ (aborting_same hs rfl)
          hs.abortingNodup hs.destroyed
        intro other
        change none = some other ↔ _
        split
        · simp
        · next hne => simp [hlocked, Ne.symm hne]
  · next hpc =>
      obtain rfl := Option.some.inj hstep
      exact put_inv hs hid (hw.publish hpc) rfl (by simp [hpc]) rfl
  · next hpc =>
      obtain rfl := Option.some.inj hstep
      refine put_inv hs hid (hw.recheck hpc) rfl ?_ rfl
      rw [hpc]
      split <;> simp
  · next hpc =>
      exact unlink_inv hs hstep hid (hw.cancelLock hpc) rfl (by simp [hpc]) rfl
  · next stage hpc =>
      obtain ⟨⟨v, next⟩, hcomplete, rfl⟩ := Option.map_eq_some_iff.mp hstep
      obtain ⟨hv, hok⟩ := hw.cancel hpc hcomplete
      refine put_inv hs hid hok hv.sameLinked ?_ ?_
      · rw [hpc]
        cases next <;> simp
      · exact Wait.aborting_congr hv.taker
  · simp at hstep

theorem callback_inv {s t : State} (hs : Inv s) {id : Nat}
    (hid : id < s.waits.length)
    (hstep : callback s id (s.wait id) = some t) : Inv t := by
  have hw := hs.waits id
  unfold callback at hstep
  split at hstep
  · next hpc =>
      obtain rfl := Option.some.inj hstep
      exact put_inv hs hid (hw.dispatch hpc) rfl Iff.rfl rfl
  · next hpc =>
      obtain rfl := Option.some.inj hstep
      exact put_inv hs hid (hw.store hpc) rfl Iff.rfl rfl
  · next hpc =>
      obtain rfl := Option.some.inj hstep
      exact put_inv hs hid (hw.load hpc) rfl Iff.rfl rfl
  · next hpc =>
      exact unlink_inv hs hstep hid (hw.stopLock hpc) rfl Iff.rfl rfl
  · next stage hpc =>
      obtain ⟨⟨v, next⟩, hcomplete, rfl⟩ := Option.map_eq_some_iff.mp hstep
      obtain ⟨hv, hok⟩ := hw.stopComplete hpc hcomplete
      refine put_inv hs hid hok hv.sameLinked ?_ (Wait.aborting_congr hv.taker)
      change v.pc = .reset ↔ _
      rw [hv.pc]
  · simp at hstep

/-- The locked section of `notify`. -/
theorem notifyLock_inv {s : State} (hs : Inv s) : Inv s.notifyLock := by
  unfold State.notifyLock
  split
  · exact hs
  next hlive =>
  split
  · next id rest hwaiters =>
      have hlinked : (s.wait id).linked = true := by
        rw [← hs.waiters id, hwaiters]
        exact List.mem_cons_self
      have hnodup := hs.waitersNodup
      rw [hwaiters, List.nodup_cons] at hnodup
      have htaker := ((hs.waits id).linked hlinked).2
      refine update_inv hs (lt_length_of_linked hlinked)
        ((hs.waits id).take hlinked .notify (by simp)) rfl rfl rfl
        rfl ?_ hnodup.2 (locked_same hs Iff.rfl) (aborting_same hs ?_)
        hs.abortingNodup (fun hdestroyed => absurd hdestroyed hlive)
      · intro other
        change other ∈ rest ↔ _
        split
        · next heq => simpa [heq] using hnodup.1
        · next hne =>
            rw [hwaiters, List.mem_cons]
            exact (or_iff_right hne).symm
      · simp [Wait.aborting, htaker]
  · exact { hs with }

theorem takerStep_ok {destroyed : Bool} {w v : Wait} {caller : Caller}
    {ec : ErrorCode} (hw : WaitOk destroyed w)
    (hstep : w.takerStep caller ec = some v) :
    WaitOk destroyed v ∧ v.linked = w.linked ∧ v.pc = w.pc ∧
      v.stopPc = w.stopPc ∧
      ∃ stage next, w.taker = some ⟨caller, some stage⟩ ∧
        v.taker = some ⟨caller, next⟩ := by
  unfold Wait.takerStep at hstep
  split at hstep
  · next found stage htaker =>
      split at hstep
      · next hcaller =>
          obtain rfl := hcaller
          obtain ⟨⟨v, next⟩, hcomplete, rfl⟩ := Option.map_eq_some_iff.mp hstep
          obtain ⟨hv, hok⟩ := hw.takerComplete htaker hcomplete
          exact ⟨hok, hv.sameLinked, hv.pc, hv.stopPc, stage, next, htaker, rfl⟩
      · simp at hstep
  · simp at hstep

theorem complete_inv {s : State} (hs : Inv s) {id : Nat}
    (hid : id < s.waits.length) {w : Wait}
    (hstep : (s.wait id).takerStep .notify .none = some w) :
    Inv (s.put id w) := by
  obtain ⟨hw, hlinked, hpc, -, stage, next, hold, hnew⟩ :=
    takerStep_ok (hs.waits id) hstep
  refine put_inv hs hid hw hlinked (by rw [hpc]) ?_
  simp [Wait.aborting, hold, hnew]

/-- `abort_all_waiters` completes the first of the waiters it has left. -/
theorem abort_inv {s : State} (hs : Inv s) {id : Nat} {rest : List Nat}
    {w : Wait} (haborting : s.aborting = id :: rest)
    (hstep : (s.wait id).takerStep .destroy .operationAborted = some w) :
    Inv { s.put id w with
      aborting := if w.aborting then id :: rest else rest } := by
  obtain ⟨hw, hlinked, hpc, -, stage, next, hold, hnew⟩ :=
    takerStep_ok (hs.waits id) hstep
  have hid : id < s.waits.length :=
    lt_length_of_ne fun hdefault => by simp [hdefault] at hold
  have hnodup := hs.abortingNodup
  rw [haborting] at hnodup
  refine update_inv hs hid hw rfl rfl rfl rfl (waiters_same hs hlinked)
    hs.waitersNodup (locked_same hs (by rw [hpc])) ?_ ?_ hs.destroyed
  · intro other
    change other ∈ (if w.aborting then id :: rest else rest) ↔ _
    rw [haborting]
    split <;> split
    · next hstill heq => simp [heq, hstill]
    · exact Iff.rfl
    · next hdone heq =>
        simpa [heq, hdone] using (List.nodup_cons.mp hnodup).1
    · next hne => simp [hne]
  · change (if w.aborting then id :: rest else rest).Nodup
    split
    · exact hnodup
    · exact (List.nodup_cons.mp hnodup).2

theorem wait_destroyLock (s : State) (id : Nat) :
    s.destroyLock.wait id =
      if id < s.waits.length ∧ id ∈ s.waiters then
        { s.wait id with
          linked := false, taker := some { caller := .destroy } }
      else s.wait id := by
  simp only [State.destroyLock, State.wait, List.getD_eq_getElem?_getD,
    List.getElem?_mapIdx]
  by_cases hid : id < s.waits.length
  · simp only [List.getElem?_eq_getElem hid, Option.map_some, Option.getD_some,
      hid, true_and]
  · simp [hid]

/-- The locked section of `abort_all_waiters`. -/
theorem destroyLock_inv {s : State} (hs : Inv s)
    (hdestroying : s.destroying = true) :
    Inv { s.destroyLock with destroying := false } := by
  have hlive := hs.destroying hdestroying
  have hwait : ∀ id,
      State.wait { s.destroyLock with destroying := false } id =
        if (s.wait id).linked = true then
          { s.wait id with
            linked := false, taker := some { caller := .destroy } }
        else s.wait id := by
    intro id
    refine (wait_destroyLock s id).trans (if_congr ?_ rfl rfl)
    rw [hs.waiters id]
    exact and_iff_right_of_imp lt_length_of_linked
  have hnone : ∀ id, (s.wait id).aborting = false := by
    intro id
    by_contra haborting
    rw [Bool.not_eq_false] at haborting
    have hdestroyed := (hs.waits id).destroyed
    unfold Wait.aborting at haborting
    split at haborting
    · next htaker => simp [htaker, hlive] at hdestroyed
    · simp at haborting
  constructor
  · intro id
    rw [hwait]
    split
    · next hlinked => exact (hs.waits id).take hlinked .destroy (fun _ => rfl)
    · exact { hs.waits id with destroyed := fun _ => rfl }
  · intro id
    rw [hwait]
    split
    · simp [State.destroyLock]
    · next hlinked => simpa [State.destroyLock] using hlinked
  · exact List.nodup_nil
  · intro id
    rw [hwait]
    split <;> exact hs.locked id
  · intro id
    rw [hwait]
    change id ∈ s.waiters ↔ _
    rw [hs.waiters id]
    split
    · next hlinked => simp [hlinked, Wait.aborting]
    · next hlinked => simp [hlinked, hnone id]
  · exact hs.waitersNodup
  · exact fun _ => rfl
  · simp
  · intro halive
    have hidle := (hs.alive halive).1
    rw [hdestroying] at hidle
    simp at hidle

theorem asyncWait_inv {s : State} (hs : Inv s) :
    Inv { s with waits := s.waits ++ [{}] } := by
  have hwait : ∀ id,
      State.wait { s with waits := s.waits ++ [{}] } id = s.wait id :=
    Inventory.getD_append_default s.waits {}
  refine { hs with
    waits := ?_, waiters := ?_, locked := ?_, aborting := ?_ }
  · intro id
    rw [hwait]
    exact hs.waits id
  · intro id
    rw [hwait]
    exact hs.waiters id
  · intro id
    rw [hwait]
    exact hs.locked id
  · intro id
    rw [hwait]
    exact hs.aborting id

theorem step_inv {s t : State} {a : Action} (hs : Inv s)
    (hstep : step s a = some t) : Inv t := by
  cases a with
  | asyncWait =>
      simp only [step, Option.ite_none_right_eq_some,
        Option.some.injEq] at hstep
      obtain ⟨-, rfl⟩ := hstep
      exact asyncWait_inv hs
  | await id =>
      simp only [step, Option.ite_none_right_eq_some] at hstep
      exact await_inv hs hstep.1 hstep.2
  | stop id =>
      simp only [step, Option.ite_none_right_eq_some,
        Option.some.injEq] at hstep
      obtain ⟨⟨hid, hstop⟩, rfl⟩ := hstep
      exact put_inv hs hid ((hs.waits id).stop hstop) rfl Iff.rfl rfl
  | callback id =>
      simp only [step, Option.ite_none_right_eq_some] at hstep
      exact callback_inv hs hstep.1 hstep.2
  | notify =>
      simp only [step, Option.ite_none_right_eq_some,
        Option.some.injEq] at hstep
      obtain ⟨-, rfl⟩ := hstep
      exact { hs with }
  | notifyLock =>
      simp only [step, Option.ite_none_right_eq_some,
        Option.some.injEq] at hstep
      obtain ⟨-, rfl⟩ := hstep
      exact { notifyLock_inv hs with }
  | complete id =>
      simp only [step, Option.ite_none_right_eq_some,
        Option.map_eq_some_iff] at hstep
      obtain ⟨hid, w, htaker, rfl⟩ := hstep
      exact complete_inv hs hid htaker
  | destroy =>
      simp only [step, Option.ite_none_right_eq_some,
        Option.some.injEq] at hstep
      obtain ⟨halive, rfl⟩ := hstep
      exact { hs with
        destroying := fun _ => (hs.alive halive).2
        alive := by simp }
  | destroyLock =>
      simp only [step, Option.ite_none_right_eq_some,
        Option.some.injEq] at hstep
      obtain ⟨⟨hdestroying, -⟩, rfl⟩ := hstep
      exact destroyLock_inv hs hdestroying
  | abort =>
      simp only [step] at hstep
      split at hstep
      · next id rest haborting =>
          obtain ⟨w, htaker, rfl⟩ := Option.map_eq_some_iff.mp hstep
          exact abort_inv hs haborting htaker
      · simp at hstep

end ConditionWaiter

end Iocoro
