/-
`add_fd` from another thread while the loop runs: the backend knows the
descriptor at once, the registry only when the queued `track` has run.  Events
are stamped with the number of removals of their descriptor, so that those
reported before a removal can be told from those reported after it.
-/
import Mathlib.Logic.Function.Basic
import Iocoro.TransitionSystem
import Iocoro.FdRegistry

universe u

namespace Iocoro

namespace AddFd

/-- The tasks that `dispatch_reactor` queues. -/
inductive Task where
  | track (fd : Nat)
  | remove (fd : Nat)
  | cancel (fd : Nat) (kind : FdEventKind) (token : Nat)
deriving DecidableEq, Repr

structure Report where
  event : BackendEvent
  stamp : Nat
deriving DecidableEq, Repr

/-- `calls` are those of `add_fd` between `backend_->add_fd` and the queueing of
`track`; `dropped` are the events that were neither handed to a waiter nor
latched though their descriptor was registered all along. -/
structure State (Op : Type u) where
  registry : FdRegistry Op := {}
  added : Nat → Bool := fun _ => false
  removals : Nat → Nat := fun _ => 0
  calls : List Nat := []
  posted : List Task := []
  backendEvents : List Report := []
  batch : List Report := []
  dropped : List BackendEvent := []

inductive Action (Op : Type u) where
  | addBackend (fd : Nat)
  | addPost (fd : Nat)
  | addInline (fd : Nat)
  | post (task : Task)
  | removeInline (fd : Nat)
  | register (fd : Nat) (op : Op) (kind : FdEventKind)
  | runTask
  | wait (events : List BackendEvent)
  | interrupted
  | waitFails
  | dispatch

variable {Op : Type u}

/-- `remove_fd_impl`. -/
def State.removeFd (s : State Op) (fd : Nat) : State Op :=
  { s with
    registry := (s.registry.deregister fd).1
    added := Function.update s.added fd false
    removals := Function.update s.removals fd (s.removals fd + 1) }

def State.run (s : State Op) : Task → State Op
  | .track fd => { s with registry := s.registry.track fd }
  | .remove fd => s.removeFd fd
  | .cancel fd kind token =>
      { s with registry := (s.registry.cancel fd kind token).1 }

/-- The event was reported after its descriptor was added, and the descriptor
has not been removed since. -/
def State.live (s : State Op) (report : Report) : Bool :=
  decide (0 ≤ report.event.fd) &&
    s.removals report.event.fd.toNat == report.stamp

/-- `take_ready` hands the direction to a waiter or latches it. -/
def deliversKind (r : FdRegistry Op) (event : BackendEvent)
    (kind : FdEventKind) : Bool :=
  let result := r.takeReady event.fd event.canRead event.canWrite
  !event.signals kind || (result.2.get kind).isSome ||
    (result.1.slotAt event.fd.toNat kind).ready

def delivers (r : FdRegistry Op) (event : BackendEvent) : Bool :=
  deliversKind r event .read && deliversKind r event .write

/-- The error path of `process_events`. -/
def State.drain (s : State Op) : State Op :=
  let drained := s.registry.drainAll
  { s with
    registry := drained.1
    added := fun fd => s.added fd && !decide (fd ∈ drained.2.fds)
    removals := fun fd =>
      s.removals fd + if fd ∈ drained.2.fds then 1 else 0 }

/-- Calls of `add_fd` and `remove_fd` from other threads, and posts. -/
def callStep (s : State Op) : Action Op → Option (State Op)
  | .addBackend fd => some { s with
      added := Function.update s.added fd true
      calls := fd :: s.calls }
  | .addPost fd =>
      if fd ∈ s.calls then
        some { s with
          calls := s.calls.erase fd
          posted := s.posted ++ [.track fd] }
      else none
  | .post task => some { s with posted := s.posted ++ [task] }
  | _ => none

/-- The reactor thread.  `wait` reports events of registered descriptors;
interrupted, it leaves the events of the call before in place. -/
def reactorStep (s : State Op) : Action Op → Option (State Op)
  | .addInline fd => some { s with
      added := Function.update s.added fd true
      registry := s.registry.track fd }
  | .removeInline fd => some (s.removeFd fd)
  | .register fd op kind => some { s with
      registry := (s.registry.registerImpl fd (some op) kind).1 }
  | .runTask =>
      match s.posted with
      | [] => none
      | task :: rest => some (State.run { s with posted := rest } task)
  | .wait events =>
      if s.batch = [] ∧ ∀ event ∈ events,
          0 ≤ event.fd ∧ s.added event.fd.toNat = true then
        let reports := events.map fun event =>
          { event, stamp := s.removals event.fd.toNat }
        some { s with backendEvents := reports, batch := reports }
      else none
  | .interrupted =>
      if s.batch = [] then some { s with batch := s.backendEvents } else none
  | .waitFails => if s.batch = [] then some s.drain else none
  | .dispatch =>
      match s.batch with
      | [] => none
      | report :: rest =>
          let event := report.event
          some { s with
            batch := rest
            registry :=
              (s.registry.takeReady event.fd event.canRead event.canWrite).1
            dropped :=
              if s.live report && !delivers s.registry event then
                event :: s.dropped
              else s.dropped }
  | _ => none

def step (s : State Op) (a : Action Op) : Option (State Op) :=
  match a with
  | .addBackend _ | .addPost _ | .post _ => callStep s a
  | _ => reactorStep s a

def system (Op : Type u) : TransitionSystem (State Op) (Action Op) where
  start := {}
  step := step

/-- A call of `add_fd` has put the descriptor into the backend, and its `track`
has not run. -/
def State.trackPending (s : State Op) (fd : Nat) : Bool :=
  decide (fd ∈ s.calls) || decide (Task.track fd ∈ s.posted)

/-- No event of a registered descriptor is dispatched while the descriptor is
untracked and its `track` pending. -/
def dispatchesTracked (s : State Op) : Action Op → Bool
  | .dispatch =>
      match s.batch with
      | [] => true
      | report :: _ =>
          let fd := report.event.fd.toNat
          !s.live report || (s.registry.entry fd).tracked ||
            !s.trackPending fd
  | _ => true

/-! ### Invariant -/

/-- What the backend knows is tracked or about to be, and the events at hand
whose descriptor has not been removed are of descriptors it knows. -/
structure Inv (s : State Op) : Prop where
  added : ∀ fd, s.added fd = true →
    (s.registry.entry fd).tracked = true ∨ s.trackPending fd = true
  stamp : ∀ report ∈ s.batch ++ s.backendEvents,
    report.stamp ≤ s.removals report.event.fd.toNat ∧
      (s.live report = true → s.added report.event.fd.toNat = true)
  clean : s.dropped = []

theorem start_inv : Inv (system Op).start := by
  constructor <;> simp [system]

/-- Every descriptor that is tracked stays tracked. -/
def Keeps (r t : FdRegistry Op) : Prop :=
  ∀ fd, (r.entry fd).tracked = true → (t.entry fd).tracked = true

theorem track_keeps (r : FdRegistry Op) (fd : Nat) : Keeps r (r.track fd) := by
  intro i htracked
  by_cases hi : (fd : Int) = i
  · rw [← Int.ofNat_inj.mp hi]
    exact FdRegistry.track_tracked r fd
  · rw [FdRegistry.track_entry_ne r hi]
    exact htracked

theorem registerImpl_keeps (r : FdRegistry Op) (fd : Nat) (op : Op)
    (kind : FdEventKind) : Keeps r (r.registerImpl fd (some op) kind).1 := by
  intro i htracked
  by_cases hi : (fd : Int) = i
  · rw [← Int.ofNat_inj.mp hi]
    exact FdRegistry.registerImpl_tracked r fd op kind
  · rw [FdRegistry.registerImpl_entry_ne r hi]
    exact htracked

theorem cancel_keeps (r : FdRegistry Op) (fd : Int) (kind : FdEventKind)
    (token : Nat) : Keeps r (r.cancel fd kind token).1 := by
  intro i htracked
  rw [FdRegistry.cancel_tracked]
  exact htracked

theorem takeReady_keeps (r : FdRegistry Op) (fd : Int)
    (canRead canWrite : Bool) :
    Keeps r (r.takeReady fd canRead canWrite).1 := by
  intro i htracked
  by_cases hi : fd = i
  · rw [hi]
    exact (FdRegistry.takeReady_of_tracked htracked _ _ .read).2.2
  · rw [FdRegistry.takeReady_entry_ne r hi]
    exact htracked

/-- An event for a tracked descriptor is delivered in both directions. -/
theorem delivers_of_tracked {r : FdRegistry Op} {event : BackendEvent}
    (hfd : 0 ≤ event.fd)
    (htracked : (r.entry event.fd.toNat).tracked = true) :
    delivers r event = true := by
  have hkind : ∀ kind, deliversKind r event kind = true := by
    intro kind
    obtain ⟨hslot, hresult, _⟩ := FdRegistry.takeReady_of_tracked htracked
      event.canRead event.canWrite kind
    rw [Int.toNat_of_nonneg hfd] at hslot hresult
    rw [deliversKind, hslot, hresult]
    have hpick : kind.pick event.canRead event.canWrite =
      event.signals kind := rfl
    rw [hpick]
    cases hsignals : event.signals kind with
    | false => simp
    | true =>
        cases hop : (r.slotAt event.fd.toNat kind).op with
        | some op => simp
        | none => simp [FdRegistry.Slot.signal, hop]
  rw [delivers, hkind, hkind]
  rfl

/-! ### Steps -/

theorem trackPending_iff {s : State Op} {fd : Nat} :
    s.trackPending fd = true ↔ fd ∈ s.calls ∨ Task.track fd ∈ s.posted := by
  simp [State.trackPending]

theorem live_iff {s : State Op} {report : Report} :
    s.live report = true ↔ 0 ≤ report.event.fd ∧
      s.removals report.event.fd.toNat = report.stamp := by
  simp [State.live]

/-- A step that removes nothing and loses no pending `track` unless it runs
it. -/
theorem Inv.grow {s t : State Op} (hs : Inv s)
    (hadded : ∀ fd, t.added fd = true → s.added fd = true ∨
      (t.registry.entry fd).tracked = true ∨ t.trackPending fd = true)
    (hmore : ∀ fd, s.added fd = true → t.added fd = true)
    (hkeeps : Keeps s.registry t.registry)
    (hpending : ∀ fd, s.trackPending fd = true →
      (t.registry.entry fd).tracked = true ∨ t.trackPending fd = true)
    (hremovals : t.removals = s.removals) (hbatch : t.batch = s.batch)
    (hevents : t.backendEvents = s.backendEvents)
    (hdropped : t.dropped = s.dropped) : Inv t where
  added := by
    intro fd htrue
    rcases hadded fd htrue with hold | hnew
    · rcases hs.added fd hold with htracked | hqueued
      · exact Or.inl (hkeeps fd htracked)
      · exact hpending fd hqueued
    · exact hnew
  stamp := by
    rw [hbatch, hevents]
    intro report hmem
    obtain ⟨hle, hlive⟩ := hs.stamp report hmem
    rw [hremovals]
    refine ⟨hle, fun htrue => hmore _ (hlive ?_)⟩
    rw [live_iff, hremovals] at htrue
    exact live_iff.mpr htrue
  clean := hdropped.trans hs.clean

/-- The registry changes and still tracks what it did. -/
theorem Inv.keep {s : State Op} (hs : Inv s) {registry : FdRegistry Op}
    (hkeeps : Keeps s.registry registry) :
    Inv { s with registry := registry } :=
  hs.grow (fun _ htrue => Or.inl htrue) (fun _ htrue => htrue) hkeeps
    (fun _ hpending => Or.inr hpending) rfl rfl rfl rfl

theorem added_of_update (s : State Op) (fd i : Nat)
    (hadded : s.added i = true) :
    Function.update s.added fd true i = true := by
  by_cases hi : i = fd
  · rw [hi, Function.update_self]
  · rw [Function.update_of_ne hi]
    exact hadded

theorem callStep_inv {s t : State Op} {a : Action Op} (hs : Inv s)
    (hstep : callStep s a = some t) : Inv t := by
  cases a with
  | addBackend fd =>
      obtain rfl := Option.some.inj hstep
      refine hs.grow ?_ ?_ (fun _ => id) ?_ rfl rfl rfl rfl
      · intro i htrue
        by_cases hi : i = fd
        · subst hi
          exact Or.inr (Or.inr (trackPending_iff.mpr
            (Or.inl List.mem_cons_self)))
        · exact Or.inl ((Function.update_of_ne hi ..).symm.trans htrue)
      · exact added_of_update s fd
      · intro i hpending
        right
        rw [trackPending_iff] at hpending ⊢
        exact hpending.imp (List.mem_cons_of_mem fd) id
  | addPost fd =>
      simp only [callStep, Option.ite_none_right_eq_some, Option.some.injEq]
        at hstep
      obtain ⟨_, rfl⟩ := hstep
      refine hs.grow (fun _ htrue => Or.inl htrue) (fun _ => id)
        (fun _ => id) ?_ rfl rfl rfl rfl
      intro i hpending
      right
      rw [trackPending_iff] at hpending ⊢
      simp only [List.mem_append, List.mem_singleton, Task.track.injEq]
      by_cases hi : i = fd
      · exact Or.inr (Or.inr hi)
      · exact hpending.imp (List.mem_erase_of_ne hi).mpr Or.inl
  | post task =>
      obtain rfl := Option.some.inj hstep
      refine hs.grow (fun _ htrue => Or.inl htrue) (fun _ => id)
        (fun _ => id) ?_ rfl rfl rfl rfl
      intro i hpending
      right
      rw [trackPending_iff] at hpending ⊢
      exact hpending.imp id (List.mem_append_left [task])
  | _ => simp [callStep] at hstep

/-- A removal takes the descriptor out of the backend and of the registry, and
makes the events at hand stale. -/
theorem removeFd_inv {s : State Op} (hs : Inv s) (fd : Nat) :
    Inv (s.removeFd fd) where
  added := by
    intro i htrue
    by_cases hi : i = fd
    · subst hi
      simp [State.removeFd] at htrue
    · have hold : s.added i = true :=
        (Function.update_of_ne hi ..).symm.trans htrue
      have hentry : (s.removeFd fd).registry.entry i = s.registry.entry i :=
        FdRegistry.deregister_entry_ne s.registry (by omega)
      rw [hentry]
      exact hs.added i hold
  stamp := by
    intro report hmem
    obtain ⟨hle, hlive⟩ := hs.stamp report hmem
    rw [live_iff]
    by_cases hfd : report.event.fd.toNat = fd
    · rw [hfd] at hle ⊢
      simp only [State.removeFd, Function.update_self]
      refine ⟨by omega, ?_⟩
      rintro ⟨_, hstamp⟩
      omega
    · simp only [State.removeFd, Function.update_of_ne hfd]
      exact ⟨hle, fun htrue => hlive (live_iff.mpr htrue)⟩
  clean := hs.clean

theorem runTask_inv {s : State Op} (hs : Inv s) {task : Task}
    {rest : List Task} (hposted : s.posted = task :: rest) :
    Inv (State.run { s with posted := rest } task) := by
  -- A task other than the `track` of a descriptor leaves it pending.
  have hpop : (∀ fd, task ≠ .track fd) → Inv { s with posted := rest } := by
    intro hother
    refine hs.grow (fun _ htrue => Or.inl htrue) (fun _ => id)
      (fun _ => id) ?_ rfl rfl rfl rfl
    intro i hpending
    right
    rw [trackPending_iff] at hpending ⊢
    rw [hposted, List.mem_cons] at hpending
    rcases hpending with hcall | hhead | hrest
    · exact Or.inl hcall
    · exact absurd hhead.symm (hother i)
    · exact Or.inr hrest
  cases task with
  | track fd =>
      refine hs.grow (fun _ htrue => Or.inl htrue) (fun _ => id)
        (track_keeps s.registry fd) ?_ rfl rfl rfl rfl
      intro i hpending
      rw [trackPending_iff, hposted, List.mem_cons, Task.track.injEq]
        at hpending
      rcases hpending with hcall | rfl | hrest
      · exact Or.inr (trackPending_iff.mpr (Or.inl hcall))
      · exact Or.inl (FdRegistry.track_tracked s.registry i)
      · exact Or.inr (trackPending_iff.mpr (Or.inr hrest))
  | remove fd => exact removeFd_inv (hpop (by simp)) fd
  | cancel fd kind token =>
      exact (hpop (by simp)).keep (cancel_keeps s.registry fd kind token)

theorem drain_inv {s : State Op} (hs : Inv s) : Inv s.drain where
  added := by
    intro i htrue
    simp only [State.drain, Bool.and_eq_true, Bool.not_eq_true',
      decide_eq_false_iff_not] at htrue
    rcases hs.added i htrue.1 with htracked | hpending
    · exact absurd (FdRegistry.mem_drainAll_fds htracked) htrue.2
    · exact Or.inr hpending
  stamp := by
    intro report hmem
    obtain ⟨hle, hlive⟩ := hs.stamp report hmem
    rw [live_iff]
    simp only [State.drain]
    split
    · refine ⟨by omega, ?_⟩
      rintro ⟨_, hstamp⟩
      omega
    · next hnot =>
        refine ⟨by omega, ?_⟩
        rintro ⟨hfd, hstamp⟩
        simp [hlive (live_iff.mpr ⟨hfd, by omega⟩), hnot]
  clean := hs.clean

/-- The events of a call of `wait` are of registered descriptors. -/
theorem wait_inv {s : State Op} (hs : Inv s) {events : List BackendEvent}
    (hevents : ∀ event ∈ events,
      0 ≤ event.fd ∧ s.added event.fd.toNat = true)
    {reports : List Report}
    (hreports : reports = events.map fun event =>
      { event, stamp := s.removals event.fd.toNat }) :
    Inv { s with backendEvents := reports, batch := reports } where
  added := hs.added
  stamp := by
    intro report hmem
    simp only [List.mem_append, or_self] at hmem
    rw [hreports, List.mem_map] at hmem
    obtain ⟨event, hevent, rfl⟩ := hmem
    exact ⟨le_refl _, fun _ => (hevents event hevent).2⟩
  clean := hs.clean

/-- The step at which an event could be dropped. -/
theorem dispatch_inv {s : State Op} (hs : Inv s)
    (hallowed : dispatchesTracked s .dispatch = true) {report : Report}
    {rest : List Report} (hbatch : s.batch = report :: rest) :
    Inv { s with
      batch := rest
      registry := (s.registry.takeReady report.event.fd report.event.canRead
        report.event.canWrite).1
      dropped :=
        if s.live report && !delivers s.registry report.event then
          report.event :: s.dropped
        else s.dropped } := by
  have hdelivered : (s.live report && !delivers s.registry report.event) =
      false := by
    rw [Bool.and_eq_false_imp]
    intro hlive
    have hadded := (hs.stamp report (by simp [hbatch])).2 hlive
    have htracked :
        (s.registry.entry report.event.fd.toNat).tracked = true := by
      rcases hs.added _ hadded with htracked | hpending
      · exact htracked
      · simpa [dispatchesTracked, hbatch, hlive, hpending] using hallowed
    rw [delivers_of_tracked (live_iff.mp hlive).1 htracked]
    rfl
  rw [hdelivered]
  have hkept := hs.keep (takeReady_keeps s.registry report.event.fd
    report.event.canRead report.event.canWrite)
  refine ⟨hkept.added, fun other hmem => ?_, hs.clean⟩
  apply hkept.stamp other
  simp only [List.mem_append] at hmem ⊢
  rw [hbatch]
  exact hmem.imp (List.mem_cons_of_mem report) id

theorem reactorStep_inv {s t : State Op} {a : Action Op} (hs : Inv s)
    (hallowed : dispatchesTracked s a = true)
    (hstep : reactorStep s a = some t) : Inv t := by
  cases a with
  | addInline fd =>
      obtain rfl := Option.some.inj hstep
      refine hs.grow ?_ ?_ (track_keeps s.registry fd)
        (fun _ hpending => Or.inr hpending) rfl rfl rfl rfl
      · intro i htrue
        by_cases hi : i = fd
        · rw [hi]
          exact Or.inr (Or.inl (FdRegistry.track_tracked s.registry fd))
        · exact Or.inl ((Function.update_of_ne hi ..).symm.trans htrue)
      · exact added_of_update s fd
  | removeInline fd =>
      obtain rfl := Option.some.inj hstep
      exact removeFd_inv hs fd
  | register fd op kind =>
      obtain rfl := Option.some.inj hstep
      exact hs.keep (registerImpl_keeps s.registry fd op kind)
  | runTask =>
      simp only [reactorStep] at hstep
      split at hstep
      · simp at hstep
      · next task rest hposted =>
          obtain rfl := Option.some.inj hstep
          exact runTask_inv hs hposted
  | wait events =>
      simp only [reactorStep, Option.ite_none_right_eq_some,
        Option.some.injEq] at hstep
      obtain ⟨⟨_, hevents⟩, rfl⟩ := hstep
      exact wait_inv hs hevents rfl
  | interrupted =>
      simp only [reactorStep, Option.ite_none_right_eq_some,
        Option.some.injEq] at hstep
      obtain ⟨_, rfl⟩ := hstep
      refine ⟨hs.added, fun report hmem => ?_, hs.clean⟩
      simp only [List.mem_append, or_self] at hmem
      exact hs.stamp report (List.mem_append_right s.batch hmem)
  | waitFails =>
      simp only [reactorStep, Option.ite_none_right_eq_some,
        Option.some.injEq] at hstep
      obtain ⟨_, rfl⟩ := hstep
      exact drain_inv hs
  | dispatch =>
      simp only [reactorStep] at hstep
      split at hstep
      · simp at hstep
      · next report rest hbatch =>
          obtain rfl := Option.some.inj hstep
          exact dispatch_inv hs hallowed hbatch
  | _ => simp [reactorStep] at hstep

theorem step_inv {s t : State Op} {a : Action Op} (hs : Inv s)
    (hallowed : dispatchesTracked s a = true) (hstep : step s a = some t) :
    Inv t := by
  cases a with
  | addBackend fd => exact callStep_inv (a := .addBackend fd) hs hstep
  | addPost fd => exact callStep_inv (a := .addPost fd) hs hstep
  | post task => exact callStep_inv (a := .post task) hs hstep
  | _ =>
      simp only [step] at hstep
      exact reactorStep_inv hs hallowed hstep

/-- In every run that dispatches no event of a descriptor before its queued
`track` has run, no event is dropped. -/
theorem dropped_eq_nil_of_dispatchesTracked (Op : Type u) {s : State Op}
    (hs : (system Op).ReachableUnder
      (fun s a => dispatchesTracked s a = true) s) : s.dropped = [] := by
  have hinv : Inv s := hs.invariant start_inv
    (fun _ _ _ hinv hallowed hstep => step_inv hinv hallowed hstep)
  exact hinv.clean

def readable : BackendEvent := { fd := 5, canRead := true }

/-- The queue is drained before the batch that holds the event. -/
def trackFirst : List (Action Nat) :=
  [.addBackend 5, .addPost 5, .runTask, .wait [readable], .dispatch]

theorem dropped_eq_nil_trackFirst :
    ∃ s : State Nat, (s.registry.slotAt 5 .read).ready = true ∧
      s.dropped = [] := by
  obtain ⟨s, hs, hend⟩ := TransitionSystem.exists_reachableUnder_of_execUnder
    (system Nat) (fun s a => dispatchesTracked s a = true) trackFirst
    (fun s => (s.registry.slotAt 5 .read).ready) (by decide)
  exact ⟨s, hend, dropped_eq_nil_of_dispatchesTracked Nat hs⟩

/-- The loop is in `wait` when another thread adds a descriptor that is already
readable, and dispatches the event before it drains its queue. -/
def eventFirst : List (Action Nat) :=
  [.addBackend 5, .wait [readable], .addPost 5, .dispatch, .runTask]

theorem dropped_ne_nil_eventFirst :
    ¬ ∀ s : State Nat, (system Nat).Reachable s → s.dropped = [] := by
  intro hall
  obtain ⟨s, hs, hend⟩ := TransitionSystem.exists_reachable_of_exec
    (system Nat) eventFirst (fun s => s.dropped == [readable]) (by decide)
  rw [hall s hs] at hend
  simp at hend

end AddFd

end Iocoro
