/-
The failure path of `io_context_impl::process_events`: the registries are drained,
then the posted tasks are run.  Abort callbacks and tasks are user code, which may
use the reactor again in any way.
-/
import Iocoro.IoContext
import Iocoro.PostedQueue

namespace Iocoro

universe u

variable {Op : Type u}

/-! ### The counters of the registries -/

namespace FdRegistry

/-- A table that was never used counts nothing. -/
def Counted (r : FdRegistry Op) : Prop := r.operations = [] → r.activeCount = 0

theorem put_operations_ne_nil (r : FdRegistry Op) (i : Nat) (e : FdOps Op) :
    (r.put i e).operations ≠ [] := by
  apply List.ne_nil_of_length_pos
  simp only [put, List.length_set]
  have hgrow := Inventory.lt_length_grow r.operations i ({} : FdOps Op)
  omega

theorem counted_of_ne_nil {r : FdRegistry Op} (h : r.operations ≠ []) : r.Counted :=
  fun hnil => absurd hnil h

theorem registerImpl_counted {r : FdRegistry Op} (hr : r.Counted) (fd : Int)
    (op : Option Op) (kind : FdEventKind) : (r.registerImpl fd op kind).1.Counted := by
  unfold registerImpl
  split
  · exact hr
  · split
    · exact hr
    · split
      · simp only
        split
        · exact counted_of_ne_nil (put_operations_ne_nil _ _ _)
        · exact counted_of_ne_nil (put_operations_ne_nil _ _ _)
      · apply counted_of_ne_nil
        rw [countOut_operations]
        exact put_operations_ne_nil _ _ _

theorem cancel_counted {r : FdRegistry Op} (hr : r.Counted) (fd : Int)
    (kind : FdEventKind) (token : Nat) : (r.cancel fd kind token).1.Counted := by
  unfold cancel
  split
  · exact hr
  · simp only
    split
    · apply counted_of_ne_nil
      rw [countOut_operations]
      exact put_operations_ne_nil _ _ _
    · exact hr

theorem deregister_counted {r : FdRegistry Op} (hr : r.Counted) (fd : Int) :
    (r.deregister fd).1.Counted := by
  unfold deregister
  split
  · apply counted_of_ne_nil
    simp only [countOut_operations]
    exact put_operations_ne_nil _ _ _
  · exact hr

theorem track_counted {r : FdRegistry Op} (hr : r.Counted) (fd : Int) :
    (r.track fd).Counted := by
  unfold track
  split
  · exact hr
  · exact counted_of_ne_nil (put_operations_ne_nil _ _ _)

theorem takeReady_counted {r : FdRegistry Op} (hr : r.Counted) (fd : Int)
    (canRead canWrite : Bool) : (r.takeReady fd canRead canWrite).1.Counted := by
  unfold takeReady
  split
  · exact hr
  · simp only
    split
    · exact hr
    · apply counted_of_ne_nil
      simp only [countOut_operations]
      exact put_operations_ne_nil _ _ _

/-- After `drain_all`, and after `cancel` and `remove_fd` from then on. -/
def Drained [DecidableEq Op] (r : FdRegistry Op) : Prop :=
  (∀ op, r.held op = 0) ∧ r.activeCount = 0

variable [DecidableEq Op]

theorem drainAll_drained {r : FdRegistry Op} (hr : r.Counted) :
    r.drainAll.1.Drained := by
  unfold drainAll
  split
  · next hempty =>
      rw [List.isEmpty_iff] at hempty
      exact ⟨fun op => by simp [held, hempty], hr hempty⟩
  · exact ⟨fun op => by simp [held], rfl⟩

theorem track_drained {r : FdRegistry Op} (hr : r.Drained) (fd : Int) :
    (r.track fd).Drained := by
  refine ⟨fun op => (r.track_held fd op).trans (hr.1 op), ?_⟩
  unfold track
  split
  · exact hr.2
  · exact hr.2

theorem cancel_drained {r : FdRegistry Op} (hr : r.Drained) (fd : Int)
    (kind : FdEventKind) (token : Nat) :
    (r.cancel fd kind token).1.Drained ∧ (r.cancel fd kind token).2.removed = none := by
  have hnone : (r.cancel fd kind token).2.removed = none := by
    cases hop : (r.cancel fd kind token).2.removed with
    | none => rfl
    | some op =>
        have hheld := r.cancel_held fd kind token op
        rw [hop, hr.1 op] at hheld
        simp at hheld
  refine ⟨⟨?_, ?_⟩, hnone⟩
  · intro op
    have hheld := r.cancel_held fd kind token op
    rw [hr.1 op] at hheld
    omega
  · unfold cancel at hnone ⊢
    split
    · exact hr.2
    · next hvalid =>
        rw [if_neg hvalid] at hnone
        simp only at hnone ⊢
        split at hnone
        · next hmatch =>
            simp only at hnone
            simp [hnone] at hmatch
        · next hmatch =>
            rw [if_neg hmatch]
            exact hr.2

theorem deregister_drained {r : FdRegistry Op} (hr : r.Drained) (fd : Int) :
    (r.deregister fd).1.Drained ∧ (r.deregister fd).2.read = none ∧
      (r.deregister fd).2.write = none := by
  have hread : (r.deregister fd).2.read = none := by
    cases hop : (r.deregister fd).2.read with
    | none => rfl
    | some op =>
        have hheld := r.deregister_held fd op
        rw [hop, hr.1 op] at hheld
        simp at hheld
  have hwrite : (r.deregister fd).2.write = none := by
    cases hop : (r.deregister fd).2.write with
    | none => rfl
    | some op =>
        have hheld := r.deregister_held fd op
        rw [hop, hr.1 op] at hheld
        simp at hheld
  refine ⟨⟨?_, ?_⟩, hread, hwrite⟩
  · intro op
    have hheld := r.deregister_held fd op
    rw [hr.1 op] at hheld
    omega
  · unfold deregister at hread hwrite ⊢
    split
    · next hvalid =>
        rw [if_pos hvalid] at hread hwrite
        simp only at hread hwrite
        have hput : (r.put fd.toNat {}).activeCount = r.activeCount := rfl
        simpa [hread, hwrite, countOut, hput] using hr.2
    · exact hr.2

end FdRegistry

namespace TimerRegistry

def Counted (r : TimerRegistry Op) : Prop := r.nodes = [] → r.activeCount = 0

theorem counted_of_pos {r : TimerRegistry Op} {i : Nat}
    (h : i < r.nodes.length) : r.Counted := by
  intro hnil
  simp [hnil] at h

theorem cancel_activeCount (r : TimerRegistry Op) (index token : Nat) :
    (r.cancel index token).1.activeCount = r.activeCount := by
  rw [cancel_eq]
  split <;> rfl

theorem cancel_counted {r : TimerRegistry Op} (hr : r.Counted) (index token : Nat) :
    (r.cancel index token).1.Counted := by
  rw [cancel_eq]
  split
  · next hmatch =>
      apply counted_of_pos (i := index)
      simpa [setNode] using hmatch.2.1
  · exact hr

theorem processExpired_counted (algorithms : BinaryHeap.Algorithms Nat)
    {r : TimerRegistry Op} (hr : r.Wf) (hcounted : r.Counted) (clock : Nat → Int) :
    (r.processExpired algorithms clock).1.Counted :=
  (expireLoop_induct algorithms (P := Counted) clock
    (fun _ _ _ _ _ hspec => counted_of_pos (hspec.size ▸ hspec.index_lt))
    _ _ r hr hcounted).2

def Drained [DecidableEq Op] (r : TimerRegistry Op) : Prop :=
  (∀ op, r.held op = 0) ∧ r.activeCount = 0

variable [DecidableEq Op]

theorem drainAll_drained {r : TimerRegistry Op} (hr : r.Counted) :
    r.drainAll.1.Drained := by
  unfold drainAll
  split
  · next hempty =>
      rw [List.isEmpty_iff] at hempty
      exact ⟨fun op => by simp [held, hempty], hr hempty⟩
  · refine ⟨fun op => ?_, rfl⟩
    apply Inventory.held_eq_zero
    intro node hnode
    obtain ⟨old, -, rfl⟩ := List.mem_map.mp hnode
    rfl

theorem cancel_drained {r : TimerRegistry Op} (hr : r.Drained) (index token : Nat) :
    (r.cancel index token).1.Drained ∧ (r.cancel index token).2.op = none := by
  refine ⟨⟨?_, (r.cancel_activeCount index token).trans hr.2⟩, ?_⟩
  · intro op
    have hheld := r.cancel_held index token op
    rw [hr.1 op] at hheld
    omega
  · cases hop : (r.cancel index token).2.op with
    | none => rfl
    | some op =>
        have hheld := r.cancel_held index token op
        rw [hop, hr.1 op] at hheld
        simp at hheld

end TimerRegistry

namespace BackendFailure

open IoContext (Frame)

/-- `running` is the loop before the failure, `aborting` the abort callbacks of the
two drains, and the rest the loop that runs posted tasks. -/
inductive Phase where
  | running
  | aborting
  | look
  | swap
  | batch (rest : List Unit)
  | inTask (rest : List Unit)
  | returned
deriving DecidableEq, Repr

/-- `inFlight` holds what the registries stored when `wait` threw. -/
structure State (Op : Type u) where
  io : IoContext.State Op := {}
  posted : PostedQueue Unit := {}
  stopped : Bool := false
  phase : Phase := .running
  inFlight : List Op := []
deriving DecidableEq, Repr

inductive Action (Op : Type u) where
  | io (action : IoContext.Action Op)
  | post
  | stop
  | restart
  | fail
  | advance (throws : Bool)

/-- The actions that the loop takes of itself. -/
def ofLoop : IoContext.Action Op → Bool
  | .processTimers _ | .processEvents _ | .backendFailure => true
  | _ => false

/-- Where steps of the reactor and of user code are possible.  In a task no
reactor function need be in progress. -/
def State.admits (s : State Op) (a : IoContext.Action Op) : Bool :=
  match s.phase with
  | .running =>
      match a with
      | .backendFailure => false
      | _ => true
  | .aborting => !ofLoop a && !s.io.stack.isEmpty
  | .inTask _ => !ofLoop a
  | _ => false

def stored (io : IoContext.State Op) : List Op :=
  io.fds.operations.flatMap FdRegistry.FdOps.ops ++
    io.timers.nodes.flatMap fun node => node.op.toList

/-- The next step of the failure path; `throws` says how a task ends. -/
def State.advance (s : State Op) (throws : Bool) : Option (State Op) :=
  match s.phase with
  | .aborting =>
      if s.io.stack.isEmpty then some { s with phase := .look } else none
  | .look =>
      some { s with
        phase := if s.posted.hasPendingTasks then .swap else .returned }
  | .swap =>
      some { s with phase := .batch s.posted.swap.1, posted := s.posted.swap.2 }
  | .batch [] => some { s with phase := .look }
  | .batch (_ :: rest) =>
      some { s with phase := .inTask rest, posted := s.posted.take }
  | .inTask rest =>
      if s.io.stack.isEmpty then
        if throws then
          some { s with phase := .look, posted := s.posted.restore rest }
        else some { s with phase := .batch rest }
      else none
  | .running | .returned => none

variable [DecidableEq Op]

def step (algorithms : BinaryHeap.Algorithms Nat) (s : State Op) :
    Action Op → Option (State Op)
  | .io a =>
      if s.admits a then
        (IoContext.step algorithms s.io a).map fun io => { s with io }
      else none
  | .post => some { s with posted := s.posted.post () }
  | .stop => some { s with stopped := true }
  | .restart => some { s with stopped := false }
  | .fail =>
      if s.phase = .running then
        (IoContext.step algorithms s.io .backendFailure).map fun io =>
          { s with
            io, stopped := true, phase := .aborting, inFlight := stored s.io }
      else none
  | .advance throws => s.advance throws

def system (Op : Type u) [DecidableEq Op] (algorithms : BinaryHeap.Algorithms Nat) :
    TransitionSystem (State Op) (Action Op) where
  start := {}
  step := step algorithms

/-- `stopped_` is set; every operation that was in flight has received one
callback, `on_abort` with `internal_error`; both registries are empty; and every
operation ever registered has been called back. -/
structure CleanedUp (s : State Op) : Prop where
  stopped : s.stopped = true
  aborted : ∀ op ∈ s.inFlight, s.io.log.filter (fun call => call.1 = op) =
    [(op, .onAbort .internalError)]
  empty : s.io.fds.isEmpty = true ∧ s.io.timers.isEmpty = true ∧
    ∀ op, s.io.stored op = 0
  called : ∀ op ∈ s.io.submitted, s.io.called op = 1

/-- The timers have still to be drained. -/
def State.timersDue (s : State Op) : Bool := decide (Frame.drainTimers ∈ s.io.stack)

/-- During the clean-up user code registers no wait for a descriptor, adds no timer
once the timers are drained and cancels none that is in flight. -/
def State.settles (s : State Op) : IoContext.Action Op → Bool
  | .registerFd _ _ _ => false
  | .addTimer _ _ => s.timersDue
  | .cancelTimer index token =>
      !s.timersDue || (s.io.timers.cancel index token).2.op.isNone
  | _ => true

/-- Beside that, nobody restarts the loop during the clean-up, and no timer is
ever added while every index is taken. -/
def State.tidy (s : State Op) : Action Op → Bool
  | .io a =>
      IoContext.avoidsWrap s.io a && (decide (s.phase = .running) || s.settles a)
  | .restart => decide (s.phase = .running)
  | _ => true

/-! ### The invariant -/

/-- The callbacks a frame has still to make. -/
@[simp] def calls : Frame Op → List (Op × Callback)
  | .resolve due => due
  | _ => []

/-- Frames of the clean-up: `process_events` dispatches no event. -/
@[simp] def ofCleanUp : Frame Op → Bool
  | .dispatch _ => false
  | _ => true

/-- The callbacks made and those that functions in progress will make. -/
def callbacks (io : IoContext.State Op) : List (Op × Callback) :=
  io.log ++ io.stack.flatMap calls

structure Cleaning (s : State Op) : Prop where
  stopped : s.stopped = true
  known : ∀ op ∈ s.inFlight, op ∈ s.io.submitted
  aborts : ∀ call ∈ callbacks s.io, call.1 ∈ s.inFlight →
    call.2 = .onAbort .internalError
  frames : ∀ frame ∈ s.io.stack, ofCleanUp frame = true
  drainsOnce : s.io.stack.count .drainTimers ≤ 1
  fds : s.io.fds.Drained
  timers : s.timersDue = false → s.io.timers.Drained
  due : s.timersDue = true → s.phase = .aborting

/-- Between the drains and the posted tasks no reactor function is in progress. -/
@[simp] def Phase.resting : Phase → Bool
  | .look | .swap | .batch _ | .returned => true
  | _ => false

structure Inv (s : State Op) : Prop where
  io : IoContext.Inv s.io
  fdsCounted : s.io.fds.Counted
  timersCounted : s.io.timers.Counted
  cleaning : s.phase ≠ .running → Cleaning s
  resting : s.phase.resting = true → s.io.stack = []

/-- The callbacks an operation has received, when it has received one. -/
theorem filter_log {s : IoContext.State Op} {op : Op} (hcalled : s.called op = 1)
    {callback : Callback} (honly : ∀ call ∈ s.log, call.1 = op → call.2 = callback) :
    s.log.filter (fun call => call.1 = op) = [(op, callback)] := by
  have hlength : (s.log.filter fun call => call.1 = op).length = 1 := by
    rw [← hcalled, IoContext.State.called, List.count, List.countP_map,
      List.countP_eq_length_filter]
    rfl
  obtain ⟨call, hcall⟩ := List.length_eq_one_iff.mp hlength
  have hmem : call ∈ s.log.filter fun call => call.1 = op := by simp [hcall]
  obtain ⟨hlog, hop⟩ := List.mem_filter.mp hmem
  have hfst : call.1 = op := by simpa using hop
  rw [hcall]
  exact congrArg (fun c => [c]) (Prod.ext hfst (honly call hlog hfst))

theorem Inv.cleanedUp {s : State Op} (hs : Inv s) (hreturned : s.phase = .returned) :
    CleanedUp s := by
  have hcleaning := hs.cleaning (by simp [hreturned])
  have hstack := hs.resting (by simp [hreturned])
  have htimers := hcleaning.timers (by simp [State.timersDue, hstack])
  have hcalled : ∀ op ∈ s.io.submitted, s.io.called op = 1 := by
    intro op hop
    have hsum := hs.io.conserved op
    have hdue : s.io.due = [] := by simp [IoContext.State.due, hstack]
    rw [hcleaning.fds.1 op, htimers.1 op, hdue, List.count_nil,
      List.count_eq_one_of_mem hs.io.submitted hop] at hsum
    omega
  refine ⟨hcleaning.stopped, ?_, ⟨?_, ?_, ?_⟩, hcalled⟩
  · intro op hop
    apply filter_log (hcalled op (hcleaning.known op hop))
    intro call hcall hfst
    exact hcleaning.aborts call (List.mem_append_left _ hcall) (hfst ▸ hop)
  · simp [FdRegistry.isEmpty, hcleaning.fds.2]
  · simp [TimerRegistry.isEmpty, htimers.2]
  · intro op
    rw [IoContext.State.stored, hcleaning.fds.1 op, htimers.1 op]

/-! ### Steps -/

/-- The counters agree with the tables through every step of the reactor. -/
theorem io_counted (algorithms : BinaryHeap.Algorithms Nat) {s t : IoContext.State Op}
    {a : IoContext.Action Op} (hs : IoContext.Inv s)
    (havoids : IoContext.avoidsWrap s a = true) (hfds : s.fds.Counted)
    (htimers : s.timers.Counted) (hstep : IoContext.step algorithms s a = some t) :
    t.fds.Counted ∧ t.timers.Counted := by
  cases a with
  | addTimer expiry op =>
      simp only [IoContext.step, Option.ite_none_right_eq_some, Option.some.injEq]
        at hstep
      obtain ⟨-, rfl⟩ := hstep
      have hspec := TimerRegistry.addTimer_spec algorithms hs.timers havoids
        expiry (some op)
      exact ⟨hfds, TimerRegistry.counted_of_pos hspec.1.index_lt⟩
  | registerFd fd kind op =>
      simp only [IoContext.step, Option.ite_none_right_eq_some, Option.some.injEq]
        at hstep
      obtain ⟨-, rfl⟩ := hstep
      exact ⟨FdRegistry.registerImpl_counted hfds fd (some op) kind, htimers⟩
  | addFd fd =>
      simp only [IoContext.step, Option.ite_none_right_eq_some, Option.some.injEq]
        at hstep
      obtain ⟨-, rfl⟩ := hstep
      exact ⟨FdRegistry.track_counted hfds fd, htimers⟩
  | cancelTimer index token =>
      simp only [IoContext.step, Option.ite_none_right_eq_some, Option.some.injEq]
        at hstep
      obtain ⟨-, rfl⟩ := hstep
      exact ⟨hfds, TimerRegistry.cancel_counted htimers index token⟩
  | cancelFdEvent fd kind token =>
      simp only [IoContext.step, Option.ite_none_right_eq_some, Option.some.injEq]
        at hstep
      obtain ⟨-, rfl⟩ := hstep
      exact ⟨FdRegistry.cancel_counted hfds fd kind token, htimers⟩
  | removeFd fd =>
      simp only [IoContext.step, Option.ite_none_right_eq_some, Option.some.injEq]
        at hstep
      obtain ⟨-, rfl⟩ := hstep
      exact ⟨FdRegistry.deregister_counted hfds fd, htimers⟩
  | processTimers clock =>
      simp only [IoContext.step, Option.ite_none_right_eq_some, Option.some.injEq]
        at hstep
      obtain ⟨-, rfl⟩ := hstep
      exact ⟨hfds, TimerRegistry.processExpired_counted algorithms hs.timers htimers
        clock⟩
  | processEvents events =>
      simp only [IoContext.step, Option.ite_none_right_eq_some, Option.some.injEq]
        at hstep
      obtain ⟨-, rfl⟩ := hstep
      exact ⟨hfds, htimers⟩
  | backendFailure =>
      simp only [IoContext.step, Option.ite_none_right_eq_some, Option.some.injEq]
        at hstep
      obtain ⟨-, rfl⟩ := hstep
      exact ⟨fun _ => (FdRegistry.drainAll_drained hfds).2, htimers⟩
  | proceed =>
      simp only [IoContext.step, IoContext.State.proceed] at hstep
      split at hstep
      case h_4 event events rest hstack =>
        split at hstep
        · obtain rfl := Option.some.inj hstep
          exact ⟨hfds, htimers⟩
        · obtain rfl := Option.some.inj hstep
          exact ⟨FdRegistry.takeReady_counted hfds event.fd event.canRead
            event.canWrite, htimers⟩
      case h_5 rest hstack =>
        obtain rfl := Option.some.inj hstep
        exact ⟨hfds, fun _ => (TimerRegistry.drainAll_drained htimers).2⟩
      case h_6 => simp at hstep
      all_goals
        obtain rfl := Option.some.inj hstep
        exact ⟨hfds, htimers⟩
  | callbackReturns =>
      simp only [IoContext.step] at hstep
      split at hstep
      · obtain rfl := Option.some.inj hstep
        exact ⟨hfds, htimers⟩
      · simp at hstep

theorem timersDue_congr {s t : State Op}
    (hcount : t.io.stack.count .drainTimers = s.io.stack.count .drainTimers) :
    t.timersDue = s.timersDue := by
  simp only [State.timersDue, ← List.count_pos_iff, hcount]

/-- A step that puts no new callback on the stack. -/
theorem Cleaning.keep {s : State Op} (hs : Cleaning s) {io : IoContext.State Op}
    (hsubmitted : ∀ op ∈ s.io.submitted, op ∈ io.submitted)
    (hcalls : ∀ call ∈ callbacks io, call ∈ callbacks s.io)
    (hframes : ∀ frame ∈ io.stack, frame ∈ s.io.stack ∨ ofCleanUp frame = true)
    (hcount : io.stack.count .drainTimers = s.io.stack.count .drainTimers)
    (hfds : io.fds.Drained) (htimers : s.timersDue = false → io.timers.Drained) :
    Cleaning { s with io } where
  stopped := hs.stopped
  known op hop := hsubmitted op (hs.known op hop)
  aborts call hcall hop := hs.aborts call (hcalls call hcall) hop
  frames frame hframe := (hframes frame hframe).elim (hs.frames frame) id
  drainsOnce := hcount ▸ hs.drainsOnce
  fds := hfds
  timers hdue := by
    apply htimers
    rw [← hdue]
    exact timersDue_congr hcount.symm
  due hdue := hs.due ((timersDue_congr hcount.symm).trans hdue)

/-- User code calls a function of the reactor that finds nothing to call back. -/
theorem Cleaning.resolveNone {s : State Op} (hs : Cleaning s) {fds : FdRegistry Op}
    {timers : TimerRegistry Op} (hfds : fds.Drained)
    (htimers : s.timersDue = false → timers.Drained) :
    Cleaning { s with io := { s.io with fds, timers }.resolve [] } := by
  apply hs.keep
  · exact fun _ h => h
  · intro call hcall
    simpa [callbacks, IoContext.State.resolve] using hcall
  · intro frame hframe
    rcases List.mem_cons.mp hframe with rfl | hold
    · exact .inr rfl
    · exact .inl hold
  · simp [IoContext.State.resolve]
  · exact hfds
  · exact htimers

theorem proceed_cleaning {s : State Op} {io : IoContext.State Op} (hs : Cleaning s)
    (hcounted : s.io.timers.Counted) (hstep : s.io.proceed = some io) :
    Cleaning { s with io } := by
  unfold IoContext.State.proceed at hstep
  split at hstep
  · next rest hstack =>
      obtain rfl := Option.some.inj hstep
      apply hs.keep
      · exact fun _ h => h
      · intro call hcall
        simpa [callbacks, hstack] using hcall
      · intro frame hframe
        exact .inl (hstack ▸ List.mem_cons_of_mem _ hframe)
      · simp [hstack]
      · exact hs.fds
      · exact hs.timers
  · next call due rest hstack =>
      obtain rfl := Option.some.inj hstep
      apply hs.keep
      · exact fun _ h => h
      · intro other hother
        simpa [callbacks, hstack] using hother
      · intro frame hframe
        rcases List.mem_cons.mp hframe with rfl | hrest
        · exact .inr rfl
        · rcases List.mem_cons.mp hrest with rfl | hold
          · exact .inr rfl
          · exact .inl (hstack ▸ List.mem_cons_of_mem _ hold)
      · simp [hstack]
      · exact hs.fds
      · exact hs.timers
  · next rest hstack =>
      have hframe := hs.frames (.dispatch []) (by simp [hstack])
      simp at hframe
  · next event events rest hstack =>
      have hframe := hs.frames (.dispatch (event :: events)) (by simp [hstack])
      simp at hframe
  · next rest hstack =>
      obtain rfl := Option.some.inj hstep
      have honce := hs.drainsOnce
      rw [hstack, List.count_cons_self] at honce
      exact {
        stopped := hs.stopped
        known := hs.known
        aborts := by
          intro call hcall hop
          have hcases : call ∈ callbacks s.io ∨ call ∈ s.io.timers.drainAll.2.map
              fun op => (op, .onAbort .internalError) := by
            simp only [callbacks, List.flatMap_cons, calls, List.mem_append,
              hstack, List.nil_append] at hcall ⊢
            tauto
          rcases hcases with hold | hnew
          · exact hs.aborts call hold hop
          · obtain ⟨op, -, rfl⟩ := List.mem_map.mp hnew
            rfl
        frames := by
          intro frame hframe
          rcases List.mem_cons.mp hframe with rfl | hold
          · rfl
          · exact hs.frames frame (hstack ▸ List.mem_cons_of_mem _ hold)
        drainsOnce := by
          rw [List.count_cons_of_ne (by simp)]
          omega
        fds := hs.fds
        timers := fun _ => TimerRegistry.drainAll_drained hcounted
        due := fun _ => hs.due (by simp [State.timersDue, hstack]) }
  · simp at hstep

theorem io_cleaning (algorithms : BinaryHeap.Algorithms Nat) {s : State Op}
    {io : IoContext.State Op} {a : IoContext.Action Op} (hs : Cleaning s)
    (hcounted : s.io.timers.Counted) (huser : ofLoop a = false)
    (hsettles : s.settles a = true)
    (hstep : IoContext.step algorithms s.io a = some io) : Cleaning { s with io } := by
  cases a with
  | addTimer expiry op =>
      simp only [IoContext.step, Option.ite_none_right_eq_some, Option.some.injEq]
        at hstep
      obtain ⟨-, rfl⟩ := hstep
      apply hs.keep
      · exact fun _ h => List.mem_append_left _ h
      · exact fun _ h => h
      · exact fun _ h => .inl h
      · rfl
      · exact hs.fds
      · intro hdue
        exact Bool.noConfusion (hdue.symm.trans hsettles)
  | registerFd fd kind op => simp [State.settles] at hsettles
  | addFd fd =>
      simp only [IoContext.step, Option.ite_none_right_eq_some, Option.some.injEq]
        at hstep
      obtain ⟨-, rfl⟩ := hstep
      exact { hs with fds := FdRegistry.track_drained hs.fds fd }
  | cancelTimer index token =>
      simp only [IoContext.step, Option.ite_none_right_eq_some, Option.some.injEq]
        at hstep
      obtain ⟨-, rfl⟩ := hstep
      have hnone : (s.io.timers.cancel index token).2.op = none := by
        cases hdue : s.timersDue with
        | false => exact (TimerRegistry.cancel_drained (hs.timers hdue) index token).2
        | true => simpa [State.settles, hdue] using hsettles
      rw [hnone]
      exact hs.resolveNone hs.fds fun hdue =>
        (TimerRegistry.cancel_drained (hs.timers hdue) index token).1
  | cancelFdEvent fd kind token =>
      simp only [IoContext.step, Option.ite_none_right_eq_some, Option.some.injEq]
        at hstep
      obtain ⟨-, rfl⟩ := hstep
      obtain ⟨hdrained, hnone⟩ := FdRegistry.cancel_drained hs.fds fd kind token
      rw [hnone]
      exact hs.resolveNone hdrained hs.timers
  | removeFd fd =>
      simp only [IoContext.step, Option.ite_none_right_eq_some, Option.some.injEq]
        at hstep
      obtain ⟨-, rfl⟩ := hstep
      obtain ⟨hdrained, hread, hwrite⟩ := FdRegistry.deregister_drained hs.fds fd
      rw [hread, hwrite]
      exact hs.resolveNone hdrained hs.timers
  | processTimers clock => simp [ofLoop] at huser
  | processEvents events => simp [ofLoop] at huser
  | backendFailure => simp [ofLoop] at huser
  | proceed => exact proceed_cleaning hs hcounted hstep
  | callbackReturns =>
      simp only [IoContext.step] at hstep
      split at hstep
      · next rest hstack =>
          obtain rfl := Option.some.inj hstep
          apply hs.keep
          · exact fun _ h => h
          · intro call hcall
            simpa [callbacks, hstack] using hcall
          · intro frame hframe
            exact .inl (hstack ▸ List.mem_cons_of_mem _ hframe)
          · simp [hstack]
          · exact hs.fds
          · exact hs.timers
      · simp at hstep

theorem count_stored (io : IoContext.State Op) (op : Op) :
    (stored io).count op = io.fds.held op + io.timers.held op := by
  simp [stored, FdRegistry.held, TimerRegistry.held, Inventory.held,
    List.count_append]

/-- What is stored when `wait` throws was submitted and not called back. -/
theorem stored_uncalled {io : IoContext.State Op} (hio : IoContext.Inv io) {op : Op}
    (hop : op ∈ stored io) : op ∈ io.submitted ∧ io.called op = 0 := by
  have hpos := List.count_pos_iff.mpr hop
  have hsum := hio.conserved op
  have honce := List.nodup_iff_count_le_one.mp hio.submitted op
  rw [count_stored] at hpos
  have hmem : 0 < io.submitted.count op := by omega
  exact ⟨List.count_pos_iff.mp hmem, by omega⟩

theorem fail_cleaning (algorithms : BinaryHeap.Algorithms Nat) {s : State Op}
    {io : IoContext.State Op} (hs : Inv s)
    (hstep : IoContext.step algorithms s.io .backendFailure = some io) :
    Cleaning { s with
      io, stopped := true, phase := .aborting, inFlight := stored s.io } := by
  simp only [IoContext.step, Option.ite_none_right_eq_some, Option.some.injEq]
    at hstep
  obtain ⟨-, rfl⟩ := hstep
  exact {
    stopped := rfl
    known := fun op hop => (stored_uncalled hs.io hop).1
    aborts := by
      intro call hcall hop
      simp only [callbacks, List.flatMap_cons, calls, List.flatMap_nil,
        List.append_nil, List.mem_append] at hcall
      rcases hcall with hlog | hnew
      · have hzero := (stored_uncalled hs.io hop).2
        have hpos : 0 < s.io.called call.1 :=
          List.count_pos_iff.mpr (List.mem_map_of_mem hlog)
        omega
      · obtain ⟨op, -, rfl⟩ := List.mem_map.mp hnew
        rfl
    frames := by simp
    drainsOnce := by simp
    fds := FdRegistry.drainAll_drained hs.fdsCounted
    timers := by simp [State.timersDue]
    due := fun _ => rfl }

/-- A step of the failure path of its own leaves the reactor alone. -/
theorem Inv.goto {s : State Op} (hs : Inv s) (phase : Phase)
    (posted : PostedQueue Unit) (hcleaning : s.phase ≠ .running)
    (hstack : s.io.stack = []) : Inv { s with phase, posted } where
  io := hs.io
  fdsCounted := hs.fdsCounted
  timersCounted := hs.timersCounted
  cleaning _ :=
    { hs.cleaning hcleaning with due := by simp [State.timersDue, hstack] }
  resting _ := hstack

theorem advance_inv {s t : State Op} {throws : Bool} (hs : Inv s)
    (hstep : s.advance throws = some t) : Inv t := by
  have hresting := hs.resting
  unfold State.advance at hstep
  split at hstep
  · next hphase =>
      split at hstep
      · next hempty =>
          obtain rfl := Option.some.inj hstep
          exact hs.goto .look s.posted (by simp [hphase])
            (List.isEmpty_iff.mp hempty)
      · simp at hstep
  · next hphase =>
      obtain rfl := Option.some.inj hstep
      exact hs.goto _ s.posted (by simp [hphase]) (hresting (by simp [hphase]))
  · next hphase =>
      obtain rfl := Option.some.inj hstep
      exact hs.goto _ _ (by simp [hphase]) (hresting (by simp [hphase]))
  · next hphase =>
      obtain rfl := Option.some.inj hstep
      exact hs.goto _ s.posted (by simp [hphase]) (hresting (by simp [hphase]))
  · next rest hphase =>
      obtain rfl := Option.some.inj hstep
      exact hs.goto _ _ (by simp [hphase]) (hresting (by simp [hphase]))
  · next rest hphase =>
      split at hstep
      · next hempty =>
          have hstack := List.isEmpty_iff.mp hempty
          split at hstep
          · obtain rfl := Option.some.inj hstep
            exact hs.goto _ _ (by simp [hphase]) hstack
          · obtain rfl := Option.some.inj hstep
            exact hs.goto _ s.posted (by simp [hphase]) hstack
      · simp at hstep
  · simp at hstep
  · simp at hstep

theorem io_inv (algorithms : BinaryHeap.Algorithms Nat) {s : State Op}
    {io : IoContext.State Op} {a : IoContext.Action Op} (hs : Inv s)
    (htidy : s.tidy (.io a) = true) (hadmits : s.admits a = true)
    (hstep : IoContext.step algorithms s.io a = some io) : Inv { s with io } := by
  obtain ⟨havoids, hsettles⟩ := Bool.and_eq_true_iff.mp htidy
  obtain ⟨hfds, htimers⟩ := io_counted algorithms hs.io havoids hs.fdsCounted
    hs.timersCounted hstep
  have huser : s.phase ≠ .running → ofLoop a = false := by
    intro hphase
    cases hp : s.phase <;> simp_all [State.admits]
  have hcleaning : s.phase ≠ .running → Cleaning { s with io } := by
    intro hphase
    apply io_cleaning algorithms (hs.cleaning hphase) hs.timersCounted
      (huser hphase) _ hstep
    simpa [hphase] using hsettles
  exact {
    io := IoContext.step_inv algorithms hs.io havoids hstep
    fdsCounted := hfds
    timersCounted := htimers
    cleaning := hcleaning
    resting := by
      intro hresting
      cases hp : s.phase <;> simp_all [State.admits] }

theorem step_inv (algorithms : BinaryHeap.Algorithms Nat) {s t : State Op}
    {a : Action Op} (hs : Inv s) (htidy : s.tidy a = true)
    (hstep : step algorithms s a = some t) : Inv t := by
  cases a with
  | io a =>
      simp only [step, Option.ite_none_right_eq_some] at hstep
      obtain ⟨hadmits, hmap⟩ := hstep
      obtain ⟨io, hio, rfl⟩ := Option.map_eq_some_iff.mp hmap
      exact io_inv algorithms hs htidy hadmits hio
  | post =>
      obtain rfl := Option.some.inj hstep
      exact { hs with cleaning := fun h => { hs.cleaning h with } }
  | stop =>
      obtain rfl := Option.some.inj hstep
      exact { hs with cleaning := fun h => { hs.cleaning h with stopped := rfl } }
  | restart =>
      obtain rfl := Option.some.inj hstep
      have hrunning : s.phase = .running := by simpa [State.tidy] using htidy
      exact { hs with cleaning := fun h => absurd hrunning h }
  | fail =>
      simp only [step, Option.ite_none_right_eq_some] at hstep
      obtain ⟨-, hmap⟩ := hstep
      obtain ⟨io, hio, rfl⟩ := Option.map_eq_some_iff.mp hmap
      obtain ⟨hfds, htimers⟩ := io_counted algorithms hs.io rfl hs.fdsCounted
        hs.timersCounted hio
      exact {
        io := IoContext.step_inv algorithms hs.io rfl hio
        fdsCounted := hfds
        timersCounted := htimers
        cleaning := fun _ => fail_cleaning algorithms hs hio
        resting := by simp }
  | advance throws => exact advance_inv hs hstep

theorem start_inv (algorithms : BinaryHeap.Algorithms Nat) :
    Inv (system Op algorithms).start where
  io := IoContext.start_inv algorithms
  fdsCounted _ := rfl
  timersCounted _ := rfl
  cleaning h := absurd rfl h
  resting := by simp [system]

/-- In every run that is tidy during the clean-up, nothing is left behind when the
failure path returns. -/
theorem cleanedUp_of_tidy (algorithms : BinaryHeap.Algorithms Nat) (s : State Op)
    (hs : (system Op algorithms).ReachableUnder (fun s a => s.tidy a = true) s)
    (hreturned : s.phase = .returned) : CleanedUp s := by
  have hinv : Inv s := hs.invariant (start_inv algorithms)
    fun _ _ _ h htidy hstep => step_inv algorithms h htidy hstep
  exact hinv.cleanedUp hreturned

/-- A read wait and a timer are in flight.  The abort of the read wait posts a task
and adds another timer; the task throws. -/
theorem cleanedUp_of_tidy_postInAbort : ∃ s : State Nat,
    (system Nat (BinaryHeap.sorted Nat)).ReachableUnder
      (fun s a => s.tidy a = true) s ∧
    s.phase = .returned ∧ s.inFlight = [0, 1] ∧ s.io.submitted = [0, 1, 2] ∧
    CleanedUp s := by
  obtain ⟨s, hs, hp⟩ := TransitionSystem.exists_reachableUnder_of_execUnder
    (system Nat (BinaryHeap.sorted Nat)) (fun s a => s.tidy a = true)
    [.io (.registerFd 3 .read 0), .io .proceed, .io (.addTimer 5 1), .fail,
      .io .proceed, .post, .io (.addTimer 7 2), .io .callbackReturns, .io .proceed,
      .io .proceed, .io .proceed, .io .callbackReturns, .io .proceed,
      .io .callbackReturns, .io .proceed, .advance false, .advance false,
      .advance false, .advance false, .advance true, .advance false]
    (fun s => decide (s.phase = .returned ∧ s.inFlight = [0, 1] ∧
      s.io.submitted = [0, 1, 2])) (by decide)
  obtain ⟨hreturned, hinFlight, hsubmitted⟩ := of_decide_eq_true hp
  exact ⟨s, hs, hreturned, hinFlight, hsubmitted,
    cleanedUp_of_tidy (BinaryHeap.sorted Nat) s hs hreturned⟩

/-- A posted task starts a read wait after the registries were drained. -/
theorem not_cleanedUp_taskRegisters : ∃ s : State Nat,
    (system Nat (BinaryHeap.sorted Nat)).Reachable s ∧ s.phase = .returned ∧
    s.io.stored 0 = 1 ∧ s.io.called 0 = 0 ∧ ¬ CleanedUp s := by
  obtain ⟨s, hs, hp⟩ := TransitionSystem.exists_reachable_of_exec
    (system Nat (BinaryHeap.sorted Nat))
    [.post, .fail, .io .proceed, .io .proceed, .io .proceed, .advance false,
      .advance false, .advance false, .advance false,
      .io (.registerFd 3 .read 0), .io .proceed, .advance false, .advance false,
      .advance false]
    (fun s => decide (s.phase = .returned ∧ s.io.stored 0 = 1 ∧
      s.io.called 0 = 0)) (by decide)
  obtain ⟨hreturned, hstored, hcalled⟩ := of_decide_eq_true hp
  refine ⟨s, hs, hreturned, hstored, hcalled, fun h => ?_⟩
  have hempty := h.empty.2.2 0
  omega

end BackendFailure

end Iocoro
