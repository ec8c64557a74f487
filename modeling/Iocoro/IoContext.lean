/-
The reactor side of `io_context_impl`: who holds an operation.  A call on the
reactor removes operations from the registries and then calls them back one by
one, and each callback may call the reactor again; the calls in progress form a
stack.
-/
import Iocoro.FdRegistry
import Iocoro.TimerRegistry
import Iocoro.TransitionSystem

namespace Iocoro

universe u

namespace IoContext

variable {Op : Type u}

/-- A function in progress on the reactor thread: the code of a callback, the
callbacks that a function has still to make, the loop of `process_events`, or
its failure path before the timers are drained. -/
inductive Frame (Op : Type u) where
  | callback
  | resolve (due : List (Op × Callback))
  | dispatch (events : List BackendEvent)
  | drainTimers
deriving DecidableEq, Repr

/-- The operations a frame has taken out and not called back. -/
def Frame.due : Frame Op → List Op
  | .resolve due => due.map Prod.fst
  | _ => []

/-- The registries, the calls in progress, the operations ever submitted and
the callbacks ever made. -/
structure State (Op : Type u) where
  fds : FdRegistry Op := {}
  timers : TimerRegistry Op := {}
  stack : List (Frame Op) := []
  submitted : List Op := []
  log : List (Op × Callback) := []
deriving DecidableEq, Repr

/-- `abort_op`, for an operation that may be null. -/
def abortOp (op : Option Op) (ec : ErrorCode) : List (Op × Callback) :=
  op.toList.map fun op => (op, .onAbort ec)

def completeOp (op : Option Op) : List (Op × Callback) :=
  op.toList.map fun op => (op, .onComplete)

/-- `process_one`. -/
def processOne (op : Option Op) (event : BackendEvent) : List (Op × Callback) :=
  if event.isError then abortOp op event.ec else completeOp op

/-- The callbacks at the end of `process_expired`. -/
def expiredCallback (entry : Op × Bool) : Op × Callback :=
  (entry.1, if entry.2 then .onComplete else .onAbort .operationAborted)

inductive Action (Op : Type u) where
  | addTimer (expiry : Int) (op : Op)
  | registerFd (fd : Int) (kind : FdEventKind) (op : Op)
  | addFd (fd : Int)
  | cancelTimer (index token : Nat)
  | cancelFdEvent (fd : Int) (kind : FdEventKind) (token : Nat)
  | removeFd (fd : Int)
  | processTimers (clock : Nat → Int)
  | processEvents (events : List BackendEvent)
  | backendFailure
  | proceed
  | callbackReturns

/-- Code outside the reactor runs: no reactor function is in progress, or it is
inside a callback. -/
def State.userCode (s : State Op) : Bool :=
  match s.stack with
  | [] => true
  | .callback :: _ => true
  | _ => false

/-- Enter a function that has these callbacks to make. -/
def State.resolve (s : State Op) (due : List (Op × Callback)) : State Op :=
  { s with stack := .resolve due :: s.stack }

/-- The next thing the innermost function does. -/
def State.proceed (s : State Op) : Option (State Op) :=
  match s.stack with
  | .resolve [] :: rest => some { s with stack := rest }
  | .resolve (call :: due) :: rest =>
      some { s with
        log := s.log ++ [call]
        stack := .callback :: .resolve due :: rest }
  | .dispatch [] :: rest => some { s with stack := rest }
  | .dispatch (event :: events) :: rest =>
      if event.fd < 0 then some { s with stack := .dispatch events :: rest }
      else
        let taken := s.fds.takeReady event.fd event.canRead event.canWrite
        some { s with
          fds := taken.1
          stack := .resolve (processOne taken.2.read event ++
            processOne taken.2.write event) :: .dispatch events :: rest }
  | .drainTimers :: rest =>
      let drained := s.timers.drainAll
      some { s with
        timers := drained.1
        stack := .resolve (drained.2.map fun op =>
          (op, .onAbort .internalError)) :: rest }
  | _ => none

variable [DecidableEq Op]

/-- One step of the reactor thread.  A cancellation from another thread is run
by the reactor later, as a step of its own. -/
def step (algorithms : BinaryHeap.Algorithms Nat) (s : State Op) :
    Action Op → Option (State Op)
  | .addTimer expiry op =>
      if s.userCode ∧ op ∉ s.submitted then
        some { s with
          timers := (s.timers.addTimer algorithms expiry (some op)).1
          submitted := s.submitted ++ [op] }
      else none
  | .registerFd fd kind op =>
      if s.userCode ∧ 0 ≤ fd ∧ op ∉ s.submitted then
        let registered := s.fds.registerImpl fd (some op) kind
        some ({ s with
            fds := registered.1
            submitted := s.submitted ++ [op] }.resolve
          (abortOp registered.2.replaced .operationAborted ++
            completeOp registered.2.readyNow))
      else none
  | .addFd fd =>
      if s.userCode then some { s with fds := s.fds.track fd } else none
  | .cancelTimer index token =>
      if s.userCode then
        let cancelled := s.timers.cancel index token
        some ({ s with timers := cancelled.1 }.resolve
          (abortOp cancelled.2.op .operationAborted))
      else none
  | .cancelFdEvent fd kind token =>
      if s.userCode then
        let cancelled := s.fds.cancel fd kind token
        some ({ s with fds := cancelled.1 }.resolve
          (abortOp cancelled.2.removed .operationAborted))
      else none
  | .removeFd fd =>
      if s.userCode then
        let removed := s.fds.deregister fd
        some ({ s with fds := removed.1 }.resolve
          (abortOp removed.2.read .operationAborted ++
            abortOp removed.2.write .operationAborted))
      else none
  | .processTimers clock =>
      if s.stack = [] then
        let expired := s.timers.processExpired algorithms clock
        some ({ s with timers := expired.1 }.resolve
          (expired.2.map expiredCallback))
      else none
  | .processEvents events =>
      if s.stack = [] then some { s with stack := [.dispatch events] } else none
  | .backendFailure =>
      if s.stack = [] then
        let drained := s.fds.drainAll
        some { s with
          fds := drained.1
          stack := [.resolve (drained.2.ops.map fun op =>
            (op, .onAbort .internalError)), .drainTimers] }
      else none
  | .proceed => s.proceed
  | .callbackReturns =>
      match s.stack with
      | .callback :: rest => some { s with stack := rest }
      | _ => none

def system (Op : Type u) [DecidableEq Op]
    (algorithms : BinaryHeap.Algorithms Nat) :
    TransitionSystem (State Op) (Action Op) where
  start := {}
  step := step algorithms

/-- No timer is added while every index of its type is taken. -/
def avoidsWrap (s : State Op) : Action Op → Bool
  | .addTimer _ _ => s.timers.hasRoom
  | _ => true

/-- In how many places an operation is stored. -/
def State.stored (s : State Op) (op : Op) : Nat :=
  s.fds.held op + s.timers.held op

/-- How many callbacks an operation has received. -/
def State.called (s : State Op) (op : Op) : Nat :=
  (s.log.map Prod.fst).count op

/-- The operations that calls in progress have taken out. -/
def State.due (s : State Op) : List Op := s.stack.flatMap Frame.due

/-- Every submitted operation is stored in one place and was not called back,
or is stored nowhere and was called back once.  An operation a reactor function
has just taken out is about to be called back, and by that function alone. -/
structure ResolvedOnce (s : State Op) : Prop where
  settled : ∀ op ∈ s.submitted, op ∉ s.due →
    (s.stored op = 1 ∧ s.called op = 0) ∨ (s.stored op = 0 ∧ s.called op = 1)
  leaving : ∀ op ∈ s.due, op ∈ s.submitted ∧ s.stored op = 0 ∧
    s.called op = 0 ∧ s.due.count op = 1
  pending : ∀ index < s.timers.nodes.length,
    (s.timers.node index).op.isSome → (s.timers.node index).state = .pending

/-- Nothing is lost and nothing is duplicated. -/
structure Inv (s : State Op) : Prop where
  timers : s.timers.Wf
  conserved : ∀ op, s.fds.held op + s.timers.held op + s.due.count op +
    s.called op = s.submitted.count op
  submitted : s.submitted.Nodup

theorem start_inv (algorithms : BinaryHeap.Algorithms Nat) :
    Inv (system Op algorithms).start :=
  ⟨TimerRegistry.wf_empty, fun _ => rfl, List.nodup_nil⟩

theorem Inv.resolvedOnce {s : State Op} (hs : Inv s) : ResolvedOnce s := by
  refine ⟨?_, ?_, ?_⟩
  · intro op hop hdue
    have hsum := hs.conserved op
    rw [List.count_eq_zero_of_not_mem hdue,
      List.count_eq_one_of_mem hs.submitted hop] at hsum
    simp only [State.stored]
    omega
  · intro op hop
    have hsum := hs.conserved op
    have hpos := List.count_pos_iff.mpr hop
    have hle := List.nodup_iff_count_le_one.mp hs.submitted op
    have hmem : 0 < s.submitted.count op := by omega
    refine ⟨List.count_pos_iff.mp hmem, ?_⟩
    simp only [State.stored]
    omega
  · intro index hindex hop
    by_contra hstate
    by_cases hin : index ∈ s.timers.heap
    · rcases hs.timers.queued index hin with ⟨hpending, _⟩ | ⟨_, hnone⟩
      · exact hstate hpending
      · simp [hnone] at hop
    · simp [(hs.timers.idle index hindex hin).2] at hop

/-! ### Steps -/

omit [DecidableEq Op] in
@[simp] theorem map_fst_abortOp (op : Option Op) (ec : ErrorCode) :
    (abortOp op ec).map Prod.fst = op.toList := by
  simp [abortOp, Function.comp_def]

omit [DecidableEq Op] in
@[simp] theorem map_fst_completeOp (op : Option Op) :
    (completeOp op).map Prod.fst = op.toList := by
  simp [completeOp, Function.comp_def]

omit [DecidableEq Op] in
@[simp] theorem map_fst_processOne (op : Option Op) (event : BackendEvent) :
    (processOne op event).map Prod.fst = op.toList := by
  unfold processOne
  split <;> simp

omit [DecidableEq Op] in
theorem map_fst_expiredCallback (ready : List (Op × Bool)) :
    (ready.map expiredCallback).map Prod.fst = ready.map Prod.fst := by
  simp [expiredCallback, Function.comp_def]

/-- A step that makes no callback keeps the balance if what the registries and
the frames lose and gain matches what is submitted. -/
theorem Inv.exchange {s t : State Op} (hs : Inv s) (htimers : t.timers.Wf)
    (hlog : t.log = s.log)
    (hbalance : ∀ op, t.fds.held op + t.timers.held op + t.due.count op +
        s.submitted.count op =
      s.fds.held op + s.timers.held op + s.due.count op +
        t.submitted.count op)
    (hsubmitted : t.submitted.Nodup) : Inv t := by
  refine ⟨htimers, ?_, hsubmitted⟩
  intro op
  have hsum := hs.conserved op
  have hchange := hbalance op
  simp only [State.called, hlog] at hsum ⊢
  omega

/-- A step that takes operations out to call them back. -/
theorem Inv.takeOut {s : State Op} (hs : Inv s) {fds : FdRegistry Op}
    {timers : TimerRegistry Op} {due : List (Op × Callback)}
    (htimers : timers.Wf)
    (hbalance : ∀ op, fds.held op + timers.held op +
        (due.map Prod.fst).count op = s.fds.held op + s.timers.held op) :
    Inv ({ s with fds, timers }.resolve due) := by
  refine hs.exchange htimers rfl ?_ hs.submitted
  intro op
  have hchange := hbalance op
  simp only [State.due, State.resolve, List.flatMap_cons, Frame.due,
    List.count_append]
  omega

theorem nodup_submit {s : State Op} (hs : Inv s) {op : Op}
    (hop : op ∉ s.submitted) : (s.submitted ++ [op]).Nodup := by
  refine List.nodup_append.mpr ⟨hs.submitted, by simp, ?_⟩
  intro a ha b hb heq
  rw [List.mem_singleton.mp hb] at heq
  exact hop (heq ▸ ha)

theorem addTimer_inv (algorithms : BinaryHeap.Algorithms Nat) {s t : State Op}
    {expiry : Int} {op : Op} (hs : Inv s) (hroom : s.timers.hasRoom = true)
    (hstep : step algorithms s (.addTimer expiry op) = some t) : Inv t := by
  simp only [step] at hstep
  split at hstep
  · next hnew =>
      obtain rfl := Option.some.inj hstep
      have hspec := TimerRegistry.addTimer_spec algorithms hs.timers hroom
        expiry (some op)
      refine hs.exchange (hspec.1.wf hs.timers) rfl ?_ (nodup_submit hs hnew.2)
      intro x
      have hheld := TimerRegistry.addTimer_held algorithms hs.timers hroom
        expiry op x
      simp only [State.due, List.count_append]
      omega
  · simp at hstep

theorem registerFd_inv (algorithms : BinaryHeap.Algorithms Nat)
    {s t : State Op} {fd : Int} {kind : FdEventKind} {op : Op} (hs : Inv s)
    (hstep : step algorithms s (.registerFd fd kind op) = some t) : Inv t := by
  simp only [step] at hstep
  split at hstep
  · next hnew =>
      obtain rfl := Option.some.inj hstep
      refine hs.exchange hs.timers rfl ?_ (nodup_submit hs hnew.2.2)
      intro x
      have hheld := s.fds.registerImpl_held hnew.2.1 op kind x
      simp only [State.due, State.resolve, List.flatMap_cons, Frame.due,
        List.map_append, map_fst_abortOp, map_fst_completeOp,
        List.count_append]
      omega
  · simp at hstep

/-- The loop of `process_events` and the failure path take operations out, a
callback hands one over. -/
theorem proceed_inv {s t : State Op} (hs : Inv s)
    (hstep : s.proceed = some t) : Inv t := by
  unfold State.proceed at hstep
  split at hstep
  · next rest hstack =>
      obtain rfl := Option.some.inj hstep
      refine hs.exchange hs.timers rfl ?_ hs.submitted
      simp [State.due, hstack, Frame.due]
  · next call due rest hstack =>
      obtain rfl := Option.some.inj hstep
      refine ⟨hs.timers, ?_, hs.submitted⟩
      intro op
      have hsum := hs.conserved op
      simp only [State.due, State.called, hstack, List.flatMap_cons, Frame.due,
        List.map_cons, List.map_append, List.map_nil, List.nil_append,
        List.count_append, List.cons_append, List.count_cons,
        List.count_nil] at hsum ⊢
      omega
  · next rest hstack =>
      obtain rfl := Option.some.inj hstep
      refine hs.exchange hs.timers rfl ?_ hs.submitted
      simp [State.due, hstack, Frame.due]
  · next event events rest hstack =>
      split at hstep
      · obtain rfl := Option.some.inj hstep
        refine hs.exchange hs.timers rfl ?_ hs.submitted
        simp [State.due, hstack, Frame.due]
      · obtain rfl := Option.some.inj hstep
        refine hs.exchange hs.timers rfl ?_ hs.submitted
        intro op
        have hheld := s.fds.takeReady_held event.fd event.canRead
          event.canWrite op
        simp only [State.due, hstack, List.flatMap_cons, Frame.due,
          List.map_append, map_fst_processOne, List.nil_append,
          List.count_append]
        omega
  · next rest hstack =>
      obtain rfl := Option.some.inj hstep
      refine hs.exchange (TimerRegistry.drainAll_wf hs.timers) rfl ?_
        hs.submitted
      intro op
      have hheld := s.timers.drainAll_held op
      simp only [State.due, hstack, List.flatMap_cons, Frame.due,
        List.map_map, Function.comp_def, List.map_id', List.nil_append,
        List.count_append]
      omega
  · simp at hstep

theorem step_inv (algorithms : BinaryHeap.Algorithms Nat) {s t : State Op}
    {a : Action Op} (hs : Inv s) (havoids : avoidsWrap s a = true)
    (hstep : step algorithms s a = some t) : Inv t := by
  cases a with
  | addTimer expiry op => exact addTimer_inv algorithms hs havoids hstep
  | registerFd fd kind op => exact registerFd_inv algorithms hs hstep
  | addFd fd =>
      simp only [step, Option.ite_none_right_eq_some,
        Option.some.injEq] at hstep
      obtain ⟨_, rfl⟩ := hstep
      refine hs.exchange hs.timers rfl ?_ hs.submitted
      intro op
      rw [FdRegistry.track_held]
      rfl
  | cancelTimer index token =>
      simp only [step, Option.ite_none_right_eq_some,
        Option.some.injEq] at hstep
      obtain ⟨_, rfl⟩ := hstep
      refine hs.takeOut (TimerRegistry.cancel_wf hs.timers index token) ?_
      intro op
      have hheld := s.timers.cancel_held index token op
      rw [map_fst_abortOp]
      omega
  | cancelFdEvent fd kind token =>
      simp only [step, Option.ite_none_right_eq_some,
        Option.some.injEq] at hstep
      obtain ⟨_, rfl⟩ := hstep
      refine hs.takeOut hs.timers ?_
      intro op
      have hheld := s.fds.cancel_held fd kind token op
      rw [map_fst_abortOp]
      omega
  | removeFd fd =>
      simp only [step, Option.ite_none_right_eq_some,
        Option.some.injEq] at hstep
      obtain ⟨_, rfl⟩ := hstep
      refine hs.takeOut hs.timers ?_
      intro op
      have hheld := s.fds.deregister_held fd op
      rw [List.map_append, map_fst_abortOp, map_fst_abortOp, List.count_append]
      omega
  | processTimers clock =>
      simp only [step, Option.ite_none_right_eq_some,
        Option.some.injEq] at hstep
      obtain ⟨_, rfl⟩ := hstep
      refine hs.takeOut
        (TimerRegistry.processExpired_wf algorithms hs.timers clock) ?_
      intro op
      have hheld := TimerRegistry.processExpired_held algorithms hs.timers
        clock op
      rw [map_fst_expiredCallback]
      omega
  | processEvents events =>
      simp only [step, Option.ite_none_right_eq_some,
        Option.some.injEq] at hstep
      obtain ⟨hidle, rfl⟩ := hstep
      refine hs.exchange hs.timers rfl ?_ hs.submitted
      simp [State.due, hidle, Frame.due]
  | backendFailure =>
      simp only [step, Option.ite_none_right_eq_some,
        Option.some.injEq] at hstep
      obtain ⟨hidle, rfl⟩ := hstep
      refine hs.exchange hs.timers rfl ?_ hs.submitted
      intro op
      have hheld := s.fds.drainAll_held op
      simp only [State.due, hidle, List.flatMap_cons, List.flatMap_nil,
        Frame.due, List.map_map, Function.comp_def, List.map_id',
        List.append_nil, List.count_nil]
      omega
  | proceed => exact proceed_inv hs hstep
  | callbackReturns =>
      simp only [step] at hstep
      split at hstep
      · next rest hstack =>
          obtain rfl := Option.some.inj hstep
          refine hs.exchange hs.timers rfl ?_ hs.submitted
          simp [State.due, hstack, Frame.due]
      · simp at hstep

/-- In every run that adds no timer when all indices are taken, every operation
is resolved exactly once. -/
theorem resolvedOnce_of_avoidsWrap (algorithms : BinaryHeap.Algorithms Nat)
    {s : State Op}
    (hs : (system Op algorithms).ReachableUnder
      (fun s a => avoidsWrap s a = true) s) : ResolvedOnce s := by
  have hinv : Inv s := hs.invariant (start_inv algorithms)
    (fun _ _ _ hinv havoids hstep => step_inv algorithms hinv havoids hstep)
  exact hinv.resolvedOnce

/-- A read wait is replaced, its successor is completed by an event, and a
timer is cancelled from inside the callback. -/
def cancelInCallback : List (Action Nat) :=
  [.addTimer 5 0, .registerFd 3 .read 1, .proceed, .registerFd 3 .read 2,
    .proceed, .callbackReturns, .proceed,
    .processEvents [{ fd := 3, canRead := true }], .proceed, .proceed,
    .cancelTimer 0 1, .proceed, .callbackReturns, .proceed, .callbackReturns,
    .proceed, .proceed]

theorem resolvedOnce_cancelInCallback :
    ∃ s : State Nat, s.stack = [] ∧ s.submitted = [0, 1, 2] ∧
      s.log = [(1, .onAbort .operationAborted), (2, .onComplete),
        (0, .onAbort .operationAborted)] ∧ ResolvedOnce s := by
  obtain ⟨s, hs, hend⟩ := TransitionSystem.exists_reachableUnder_of_execUnder
    (system Nat (BinaryHeap.sorted Nat)) (fun s a => avoidsWrap s a = true)
    cancelInCallback
    (fun s => s.stack == [] && s.submitted == [0, 1, 2] &&
      s.log == [(1, .onAbort .operationAborted), (2, .onComplete),
        (0, .onAbort .operationAborted)]) (by decide)
  simp only [Bool.and_eq_true, beq_iff_eq] at hend
  exact ⟨s, hend.1.1, hend.1.2, hend.2,
    resolvedOnce_of_avoidsWrap (BinaryHeap.sorted Nat) hs⟩

theorem step_addTimer (algorithms : BinaryHeap.Algorithms Nat) {s : State Op}
    {op : Op} (hstack : s.stack = []) (hop : op ∉ s.submitted) (expiry : Int) :
    (system Op algorithms).step s (.addTimer expiry op) =
      some { s with
        timers := (s.timers.addTimer algorithms expiry (some op)).1
        submitted := s.submitted ++ [op] } := by
  have huser : s.userCode = true := by simp [State.userCode, hstack]
  simp only [system, step, if_pos (And.intro huser hop)]

theorem exists_reachable_filled (algorithms : BinaryHeap.Algorithms Nat)
    (n : Nat) (hn : n ≤ 2 ^ 32) :
    ∃ s : State Nat, (system Nat algorithms).Reachable s ∧
      s.timers.nodes = TimerRegistry.filled n ∧ s.timers.free = [] ∧
      s.submitted = List.range n ∧ s.fds = {} ∧ s.stack = [] ∧ s.log = [] := by
  induction n with
  | zero => exact ⟨{}, .start, rfl, rfl, rfl, rfl, rfl, rfl⟩
  | succ n ih =>
      obtain ⟨s, hs, hnodes, hfree, hsubmitted, hfds, hstack, hlog⟩ :=
        ih (by omega)
      have hlength : s.timers.nodes.length = n := by
        simp [hnodes, TimerRegistry.filled]
      obtain ⟨hnodes', hfree', _⟩ := TimerRegistry.addTimer_of_free_nil
        algorithms hfree (by omega) n
      have hop : n ∉ s.submitted := by simp [hsubmitted]
      refine ⟨_, .step hs trivial (step_addTimer algorithms hstack hop 0), ?_,
        hfree', ?_, hfds, hstack, hlog⟩
      · rw [hnodes', hnodes, TimerRegistry.filled_succ]
      · simp [hsubmitted, List.range_succ]

/-- With `2 ^ 32` timers pending, the next one takes the node of the first,
whose operation is dropped without a callback. -/
theorem not_resolvedOnce_fullIndex :
    ¬ ∀ s : State Nat,
      (system Nat (BinaryHeap.sorted Nat)).Reachable s → ResolvedOnce s := by
  intro hall
  obtain ⟨s, hs, hnodes, hfree, hsubmitted, hfds, hstack, hlog⟩ :=
    exists_reachable_filled (BinaryHeap.sorted Nat) (2 ^ 32) (le_refl _)
  have hheld := TimerRegistry.addTimer_of_full_held (BinaryHeap.sorted Nat)
    hfree hnodes
  have hop : 2 ^ 32 ∉ s.submitted := by
    rw [hsubmitted, List.mem_range]
    exact Nat.lt_irrefl _
  have hresolved := hall _
    (.step hs trivial (step_addTimer (BinaryHeap.sorted Nat) hstack hop 0))
  have hzero : 0 ∈ s.submitted := by
    rw [hsubmitted, List.mem_range]
    omega
  rcases hresolved.settled 0 (List.mem_append_left _ hzero)
    (by simp [State.due, hstack]) with ⟨hstored, _⟩ | ⟨_, hcalled⟩
  · simp only [State.stored, hheld, hfds] at hstored
    simp [FdRegistry.held] at hstored
  · simp [State.called, hlog] at hcalled

end IoContext

end Iocoro
