/-
Runs of `posted_queue`: posts from any thread against successive calls of
`process` on the reactor thread, in which any task may throw.  Every locked
section, every removal with its decrement, and every start and end of a task is a
step of its own.
-/
import Iocoro.TransitionSystem
import Iocoro.PostedQueue
import Mathlib.Data.List.Basic
import Mathlib.Data.List.Nodup

namespace Iocoro

namespace PostedRun

/-- A posted `unique_function`; `callable` is its conversion to `bool`, and `id` is
its place in the order of the locked sections of `post`. -/
structure Task where
  id : Nat
  callable : Bool
deriving DecidableEq, Repr

/-- Where the thread that calls `process` stands, with the local queue and the
local count.  After `caught` comes the locked section of the handler. -/
inductive Phase where
  | outside
  | looping (batch : List Task) (n : Nat)
  | taken (task : Task) (batch : List Task) (n : Nat)
  | running (task : Task) (batch : List Task) (n : Nat)
  | caught (batch : List Task)
deriving DecidableEq, Repr

inductive Outcome where
  | returned (n : Nat)
  | threw
deriving DecidableEq, Repr

/-- One call of `process`: how many tasks were posted before its swap, what the swap
took out, and what the loop has removed from it so far. -/
structure Call where
  before : Nat := 0
  swapped : List Task := []
  runs : List Task := []
deriving DecidableEq, Repr

/-- The queue and the reactor thread.  The other fields record the run: the tasks
posted, those taken out with a decrement, those started, those that came back
without an exception, the current call and the calls that have ended. -/
structure State where
  posted : PostedQueue Task := {}
  phase : Phase := .outside
  log : List Task := []
  taken : List Task := []
  started : List Task := []
  completed : List Task := []
  call : Call := {}
  calls : List (Call × Outcome) := []
deriving DecidableEq, Repr

inductive Action where
  | post (callable : Bool)
  | process
  | take
  | invoke
  | complete
  | fail
  | restore
  | leave
deriving DecidableEq, Repr

def step (s : State) : Action → Option State
  | .post callable =>
      let task : Task := { id := s.log.length, callable }
      some { s with posted := s.posted.post task, log := s.log ++ [task] }
  | .process =>
      match s.phase with
      | .outside =>
          let (batch, rest) := s.posted.swap
          let call : Call := { before := s.log.length, swapped := batch }
          -- `if (local.empty()) return 0`
          if batch = [] then
            some { s with
              posted := rest, call, calls := s.calls ++ [(call, .returned 0)] }
          else some { s with posted := rest, call, phase := .looping batch 0 }
      | _ => none
  | .take =>
      match s.phase with
      | .looping (task :: batch) n =>
          some { s with
            posted := s.posted.take
            phase := .taken task batch n
            taken := s.taken ++ [task]
            call := { s.call with runs := s.call.runs ++ [task] } }
      | _ => none
  | .invoke =>
      match s.phase with
      | .taken task batch n =>
          if task.callable then
            some { s with
              phase := .running task batch n, started := s.started ++ [task] }
          else some { s with phase := .looping batch (n + 1) }
      | _ => none
  | .complete =>
      match s.phase with
      | .running task batch n =>
          some { s with
            phase := .looping batch (n + 1), completed := s.completed ++ [task] }
      | _ => none
  | .fail =>
      match s.phase with
      | .running _ batch _ => some { s with phase := .caught batch }
      | _ => none
  | .restore =>
      match s.phase with
      | .caught batch =>
          some { s with
            posted := s.posted.restore batch
            phase := .outside
            calls := s.calls ++ [(s.call, .threw)] }
      | _ => none
  | .leave =>
      match s.phase with
      | .looping [] n =>
          some { s with
            phase := .outside, calls := s.calls ++ [(s.call, .returned n)] }
      | _ => none

/-- Posting threads and one thread that calls `process`. -/
def machine : TransitionSystem State Action where
  start := {}
  step := step

/-- The local queue of the call in progress. -/
def Phase.batch : Phase → List Task
  | .outside => []
  | .looping batch _ => batch
  | .taken _ batch _ => batch
  | .running _ batch _ => batch
  | .caught batch => batch

/-- The task that has been taken and is about to be invoked. -/
def Phase.inHand : Phase → List Task
  | .taken task _ _ => if task.callable then [task] else []
  | _ => []

/-- The posted tasks that no call has taken yet. -/
def State.waiting (s : State) : List Task :=
  s.phase.batch ++ s.posted.queue

/-! ### What every call keeps -/

/-- The loop of the current call has gone through the tasks `runs`, and all of them
but the one in hand are done. -/
def Phase.Agrees (completed : List Task) (call : Call) : Phase → Prop
  | .outside => True
  | .looping batch n =>
      call.swapped = call.runs ++ batch ∧ n = call.runs.length ∧
        ∀ task ∈ call.runs, task.callable → task ∈ completed
  | .taken task batch n =>
      call.swapped = call.runs ++ batch ∧ ∃ before, call.runs = before ++ [task] ∧
        n = before.length ∧ ∀ task ∈ before, task.callable → task ∈ completed
  | .running task batch n =>
      call.swapped = call.runs ++ batch ∧ ∃ before, call.runs = before ++ [task] ∧
        n = before.length ∧ ∀ task ∈ before, task.callable → task ∈ completed
  | .caught batch => call.swapped = call.runs ++ batch

/-- What a call that has ended has done: it ran tasks of its swap only, in their
order, and all of them if it returned. -/
def Call.Ended (completed : List Task) (call : Call) : Outcome → Prop
  | .returned n =>
      call.runs = call.swapped ∧ n = call.swapped.length ∧
        ∀ task ∈ call.swapped, task.callable → task ∈ completed
  | .threw => call.runs <+: call.swapped

/-- The tasks of a call were posted before its swap. -/
def Call.Posted (log : List Task) (call : Call) : Prop :=
  call.before ≤ log.length ∧ ∀ task ∈ call.swapped, task ∈ log.take call.before

structure Consistent (s : State) : Prop where
  counts : s.posted.Counts s.phase.batch
  placed : s.log.Perm (s.taken ++ s.waiting)
  ids : s.log.map Task.id = List.range s.log.length
  started : s.started ++ s.phase.inHand = s.taken.filter Task.callable
  agrees : s.phase.Agrees s.completed s.call
  posted : s.call.Posted s.log
  ended : ∀ call outcome, (call, outcome) ∈ s.calls →
    call.Ended s.completed outcome ∧ call.Posted s.log

theorem Call.Posted.append {log : List Task} {call : Call} (h : call.Posted log)
    (more : List Task) : call.Posted (log ++ more) := by
  refine ⟨by simpa using Nat.le_add_right_of_le h.1, fun task htask => ?_⟩
  rw [List.take_append_of_le_length h.1]
  exact h.2 task htask

theorem Call.Ended.append {completed : List Task} {call : Call} {outcome : Outcome}
    (h : call.Ended completed outcome) (more : List Task) :
    call.Ended (completed ++ more) outcome := by
  cases outcome with
  | returned n =>
      exact ⟨h.1, h.2.1, fun task htask hcall =>
        List.mem_append_left _ (h.2.2 task htask hcall)⟩
  | threw => exact h

theorem start_consistent : Consistent machine.start where
  counts := rfl
  placed := .refl _
  ids := rfl
  started := rfl
  agrees := trivial
  posted := ⟨Nat.le_refl _, nofun⟩
  ended := nofun

theorem post_consistent {s : State} (hs : Consistent s) (callable : Bool) :
    Consistent { s with
      posted := s.posted.post { id := s.log.length, callable }
      log := s.log ++ [{ id := s.log.length, callable }] } where
  counts := hs.counts.post _
  placed := by
    have hplaced := hs.placed.append_right [(⟨s.log.length, callable⟩ : Task)]
    simpa [State.waiting, PostedQueue.post] using hplaced
  ids := by simp [hs.ids, List.range_succ]
  started := hs.started
  agrees := hs.agrees
  posted := hs.posted.append _
  ended := fun call outcome hmem =>
    ⟨(hs.ended call outcome hmem).1, (hs.ended call outcome hmem).2.append _⟩

/-- What the swap takes out was posted before it. -/
theorem swap_posted {s : State} (hs : Consistent s) :
    Call.Posted s.log { before := s.log.length, swapped := s.posted.queue } := by
  refine ⟨Nat.le_refl _, fun task htask => ?_⟩
  rw [List.take_length]
  refine hs.placed.symm.subset ?_
  exact List.mem_append_right _ (List.mem_append_right _ htask)

theorem process_consistent {s t : State} (hs : Consistent s)
    (hstep : step s .process = some t) : Consistent t := by
  simp only [step] at hstep
  split at hstep
  next houtside =>
    have hcounts : s.posted.Counts [] := by
      simpa [houtside, Phase.batch] using hs.counts
    have hplaced := hs.placed
    simp only [State.waiting, houtside, Phase.batch, List.nil_append] at hplaced
    have hstarted := hs.started
    simp only [houtside, Phase.inHand] at hstarted
    split at hstep
    next hnone =>
      have hqueue : s.posted.queue = [] := hnone
      obtain rfl := Option.some.inj hstep
      exact
        { counts := by
            simpa [houtside, Phase.batch, hqueue, PostedQueue.swap] using hcounts.swap
          placed := by
            simpa [State.waiting, houtside, Phase.batch, PostedQueue.swap,
              hqueue] using hplaced
          ids := hs.ids
          started := by simpa [houtside, Phase.inHand] using hstarted
          agrees := by simp [houtside, Phase.Agrees]
          posted := swap_posted hs
          ended := fun call outcome hmem => by
            rcases List.mem_append.mp hmem with hold | hnew
            · exact hs.ended call outcome hold
            · obtain ⟨rfl, rfl⟩ := Prod.mk.inj (List.mem_singleton.mp hnew)
              refine ⟨?_, swap_posted hs⟩
              simp [Call.Ended, PostedQueue.swap, hqueue] }
    next =>
      obtain rfl := Option.some.inj hstep
      exact
        { counts := hcounts.swap
          placed := by
            simpa [State.waiting, Phase.batch, PostedQueue.swap] using hplaced
          ids := hs.ids
          started := by simpa [Phase.inHand] using hstarted
          agrees := by simp [Phase.Agrees]
          posted := swap_posted hs
          ended := hs.ended }
  next => cases hstep

theorem take_consistent {s : State} (hs : Consistent s) {task : Task}
    {batch : List Task} {n : Nat} (hphase : s.phase = .looping (task :: batch) n) :
    Consistent { s with
      posted := s.posted.take
      phase := .taken task batch n
      taken := s.taken ++ [task]
      call := { s.call with runs := s.call.runs ++ [task] } } := by
  obtain ⟨hswapped, hn, hdone⟩ : s.call.swapped = s.call.runs ++ task :: batch ∧
      n = s.call.runs.length ∧
      ∀ task ∈ s.call.runs, task.callable → task ∈ s.completed := by
    simpa [hphase, Phase.Agrees] using hs.agrees
  exact
    { counts := by
        have hcounts := hs.counts
        rw [hphase] at hcounts
        exact hcounts.take
      placed := by
        simpa [State.waiting, hphase, Phase.batch, PostedQueue.take] using hs.placed
      ids := hs.ids
      started := by
        have hstarted := hs.started
        simp only [hphase, Phase.inHand, List.append_nil] at hstarted
        rw [List.filter_append, ← hstarted]
        cases hcallable : task.callable <;> simp [Phase.inHand, hcallable]
      agrees := ⟨by simpa using hswapped, s.call.runs, rfl, hn, hdone⟩
      posted := hs.posted
      ended := hs.ended }

theorem invoke_consistent {s t : State} (hs : Consistent s)
    (hstep : step s .invoke = some t) : Consistent t := by
  simp only [step] at hstep
  split at hstep
  next task batch n hphase =>
    have hstarted := hs.started
    obtain ⟨hswapped, before, hruns, hn, hdone⟩ :
        Phase.Agrees s.completed s.call (.taken task batch n) := hphase ▸ hs.agrees
    split at hstep
    next hcallable =>
      obtain rfl := Option.some.inj hstep
      exact
        { counts := by simpa [hphase, Phase.batch] using hs.counts
          placed := by simpa [State.waiting, hphase, Phase.batch] using hs.placed
          ids := hs.ids
          started := by
            simpa [hphase, Phase.inHand, hcallable] using hstarted
          agrees := ⟨hswapped, before, hruns, hn, hdone⟩
          posted := hs.posted
          ended := hs.ended }
    next hcallable =>
      obtain rfl := Option.some.inj hstep
      exact
        { counts := by simpa [hphase, Phase.batch] using hs.counts
          placed := by simpa [State.waiting, hphase, Phase.batch] using hs.placed
          ids := hs.ids
          started := by
            simpa [hphase, Phase.inHand, hcallable] using hstarted
          agrees := by
            refine ⟨hswapped, by simp [hruns, hn], fun other hother hcall => ?_⟩
            rcases List.mem_append.mp (hruns ▸ hother) with hold | hnew
            · exact hdone other hold hcall
            · exact absurd (List.mem_singleton.mp hnew ▸ hcall) hcallable
          posted := hs.posted
          ended := hs.ended }
  next => nomatch hstep

theorem complete_consistent {s : State} (hs : Consistent s) {task : Task}
    {batch : List Task} {n : Nat} (hphase : s.phase = .running task batch n) :
    Consistent { s with
      phase := .looping batch (n + 1), completed := s.completed ++ [task] } := by
  obtain ⟨hswapped, before, hruns, hn, hdone⟩ :
      Phase.Agrees s.completed s.call (.running task batch n) := hphase ▸ hs.agrees
  exact
    { counts := by simpa [hphase, Phase.batch] using hs.counts
      placed := by simpa [State.waiting, hphase, Phase.batch] using hs.placed
      ids := hs.ids
      started := by simpa [hphase, Phase.inHand] using hs.started
      agrees := by
        refine ⟨hswapped, by simp [hruns, hn], fun other hother hcall => ?_⟩
        rcases List.mem_append.mp (hruns ▸ hother) with hold | hnew
        · exact List.mem_append_left _ (hdone other hold hcall)
        · exact List.mem_append_right _ hnew
      posted := hs.posted
      ended := fun call outcome hmem =>
        ⟨(hs.ended call outcome hmem).1.append _, (hs.ended call outcome hmem).2⟩ }

theorem fail_consistent {s : State} (hs : Consistent s) {task : Task}
    {batch : List Task} {n : Nat} (hphase : s.phase = .running task batch n) :
    Consistent { s with phase := .caught batch } where
  counts := by simpa [hphase, Phase.batch] using hs.counts
  placed := by simpa [State.waiting, hphase, Phase.batch] using hs.placed
  ids := hs.ids
  started := by simpa [hphase, Phase.inHand] using hs.started
  agrees := (hphase ▸ hs.agrees : Phase.Agrees s.completed s.call
    (.running task batch n)).1
  posted := hs.posted
  ended := hs.ended

/-- A call ends: its record joins the others. -/
theorem Consistent.ended_append {s : State} (hs : Consistent s) {outcome : Outcome}
    (hcall : s.call.Ended s.completed outcome) (call : Call) (result : Outcome)
    (hmem : (call, result) ∈ s.calls ++ [(s.call, outcome)]) :
    call.Ended s.completed result ∧ call.Posted s.log := by
  rcases List.mem_append.mp hmem with hold | hnew
  · exact hs.ended call result hold
  · obtain ⟨rfl, rfl⟩ := Prod.mk.inj (List.mem_singleton.mp hnew)
    exact ⟨hcall, hs.posted⟩

theorem restore_consistent {s : State} (hs : Consistent s) {batch : List Task}
    (hphase : s.phase = .caught batch) :
    Consistent { s with
      posted := s.posted.restore batch
      phase := .outside
      calls := s.calls ++ [(s.call, .threw)] } where
  counts := by
    have hcounts := hs.counts
    rw [hphase] at hcounts
    exact hcounts.restore
  placed := by
    refine hs.placed.trans (List.Perm.append_left _ ?_)
    simpa [State.waiting, hphase, Phase.batch, PostedQueue.restore] using
      List.perm_append_comm
  ids := hs.ids
  started := by simpa [hphase, Phase.inHand] using hs.started
  agrees := trivial
  posted := hs.posted
  ended := hs.ended_append ⟨batch, (hphase ▸ hs.agrees :
    Phase.Agrees s.completed s.call (.caught batch)).symm⟩

theorem leave_consistent {s : State} (hs : Consistent s) {n : Nat}
    (hphase : s.phase = .looping [] n) :
    Consistent { s with
      phase := .outside, calls := s.calls ++ [(s.call, .returned n)] } := by
  obtain ⟨hswapped, hn, hdone⟩ :
      Phase.Agrees s.completed s.call (.looping [] n) := hphase ▸ hs.agrees
  rw [List.append_nil] at hswapped
  exact
    { counts := by simpa [hphase, Phase.batch] using hs.counts
      placed := by simpa [State.waiting, hphase, Phase.batch] using hs.placed
      ids := hs.ids
      started := by simpa [hphase, Phase.inHand] using hs.started
      agrees := trivial
      posted := hs.posted
      ended := hs.ended_append
        ⟨hswapped.symm, by rw [hswapped, hn], by rwa [hswapped]⟩ }

theorem step_consistent {s t : State} {a : Action} (hs : Consistent s)
    (hstep : step s a = some t) : Consistent t := by
  cases a with
  | post callable => exact Option.some.inj hstep ▸ post_consistent hs callable
  | process => exact process_consistent hs hstep
  | invoke => exact invoke_consistent hs hstep
  | take =>
      simp only [step] at hstep
      split at hstep
      next hphase => exact Option.some.inj hstep ▸ take_consistent hs hphase
      next => nomatch hstep
  | complete =>
      simp only [step] at hstep
      split at hstep
      next hphase => exact Option.some.inj hstep ▸ complete_consistent hs hphase
      next => nomatch hstep
  | fail =>
      simp only [step] at hstep
      split at hstep
      next hphase => exact Option.some.inj hstep ▸ fail_consistent hs hphase
      next => nomatch hstep
  | restore =>
      simp only [step] at hstep
      split at hstep
      next hphase => exact Option.some.inj hstep ▸ restore_consistent hs hphase
      next => nomatch hstep
  | leave =>
      simp only [step] at hstep
      split at hstep
      next hphase => exact Option.some.inj hstep ▸ leave_consistent hs hphase
      next => nomatch hstep

theorem reachable_consistent {s : State} (hs : machine.Reachable s) :
    Consistent s :=
  hs.invariant start_consistent fun _ _ _ hinv hstep => step_consistent hinv hstep

/-! ### Every posted task is taken once -/

theorem Consistent.log_nodup {s : State} (hs : Consistent s) : s.log.Nodup := by
  have hids : (s.log.map Task.id).Nodup := hs.ids ▸ List.nodup_range
  exact hids.of_map _

/-- The posted tasks that have not been taken for execution. -/
def State.untaken (s : State) : List Task :=
  s.log.filter fun task => task ∉ s.taken

theorem Consistent.untaken_length {s : State} (hs : Consistent s) :
    s.untaken.length = s.waiting.length := by
  have hnodup : (s.taken ++ s.waiting).Nodup := hs.placed.nodup_iff.mp hs.log_nodup
  have hdisjoint := List.nodup_append.mp hnodup
  have hperm : s.untaken.Perm
      ((s.taken ++ s.waiting).filter fun task => task ∉ s.taken) :=
    hs.placed.filter _
  have htaken : s.taken.filter (fun task => task ∉ s.taken) = [] := by
    simp [List.filter_eq_nil_iff]
  have hwaiting : s.waiting.filter (fun task => task ∉ s.taken) = s.waiting := by
    refine List.filter_eq_self.mpr fun task htask => ?_
    simpa using fun hmem => hdisjoint.2.2 task hmem task htask rfl
  rw [List.filter_append, htaken, hwaiting, List.nil_append] at hperm
  exact hperm.length_eq

theorem Consistent.pendingCount {s : State} (hs : Consistent s) :
    s.posted.pendingCount = s.untaken.length := by
  rw [hs.untaken_length, State.waiting, List.length_append]
  exact hs.counts.trans (Nat.add_comm _ _)

theorem Consistent.started_nodup {s : State} (hs : Consistent s) :
    s.started.Nodup := by
  have hnodup : (s.taken ++ s.waiting).Nodup := hs.placed.nodup_iff.mp hs.log_nodup
  have hfilter : (s.taken.filter Task.callable).Nodup :=
    (List.nodup_append.mp hnodup).1.filter _
  exact (List.nodup_append.mp (hs.started ▸ hfilter)).1

/-- The decrement is made from a positive counter. -/
theorem Consistent.take_pendingCount {s t : State} (hs : Consistent s)
    (hstep : machine.step s .take = some t) :
    s.posted.pendingCount = t.posted.pendingCount + 1 := by
  simp only [machine, step] at hstep
  split at hstep
  next task batch n hphase =>
    have hcounts : s.posted.Counts (task :: batch) := by
      simpa [hphase, Phase.batch] using hs.counts
    obtain rfl := Option.some.inj hstep
    simp only [PostedQueue.Counts, List.length_cons] at hcounts
    simp only [PostedQueue.take]
    omega
  next => cases hstep

theorem Consistent.runs_prefix {s : State} (hs : Consistent s)
    (hinside : s.phase ≠ .outside) : s.call.runs <+: s.call.swapped := by
  have hagrees := hs.agrees
  cases hphase : s.phase with
  | outside => exact absurd hphase hinside
  | looping batch n => exact ⟨batch, (hphase ▸ hagrees).1.symm⟩
  | taken task batch n => exact ⟨batch, (hphase ▸ hagrees).1.symm⟩
  | running task batch n => exact ⟨batch, (hphase ▸ hagrees).1.symm⟩
  | caught batch => exact ⟨batch, (hphase ▸ hagrees).symm⟩

/-! ### The end of a call -/

/-- The steps of the thread that calls `process`, which posts are not. -/
def Action.ofReactor : Action → Bool
  | .post _ => false
  | _ => true

/-- A bound on the steps that the call in progress still makes. -/
def Phase.work : Phase → Nat
  | .outside => 0
  | .looping batch _ => 3 * batch.length + 1
  | .taken _ batch _ => 3 * batch.length + 3
  | .running _ batch _ => 3 * batch.length + 2
  | .caught _ => 1

/-- Whatever is posted meanwhile, a step of the call uses up some of its work. -/
theorem step_work {s t : State} {a : Action} (hstep : machine.step s a = some t)
    (hnew : a ≠ .process) :
    t.phase.work + (if a.ofReactor then 1 else 0) ≤ s.phase.work := by
  cases a with
  | post callable =>
      obtain rfl := Option.some.inj hstep
      simp [Action.ofReactor]
  | process => exact absurd rfl hnew
  | take | complete | fail | restore | leave =>
      simp only [machine, step] at hstep
      split at hstep
      next hphase =>
        obtain rfl := Option.some.inj hstep
        simp only [hphase, Phase.work, Action.ofReactor, List.length_cons]
        grind
      next => nomatch hstep
  | invoke =>
      simp only [machine, step] at hstep
      split at hstep
      next hphase =>
        split at hstep <;>
        · obtain rfl := Option.some.inj hstep
          simp [hphase, Phase.work, Action.ofReactor]
      next => nomatch hstep

theorem exec_work {s t : State} {word : List Action} (hword : .process ∉ word)
    (hexec : machine.exec s word = some t) :
    t.phase.work + word.countP Action.ofReactor ≤ s.phase.work := by
  induction word generalizing s with
  | nil =>
      obtain rfl := Option.some.inj hexec
      simp
  | cons a word ih =>
      obtain ⟨next, hstep, hrest⟩ := Option.bind_eq_some_iff.mp hexec
      have hfirst := step_work hstep (fun h => hword (h ▸ List.mem_cons_self))
      have hlater := ih (fun h => hword (List.mem_cons_of_mem _ h)) hrest
      rw [List.countP_cons]
      omega

/-- Inside a call the thread can always make its next step; a running task is taken
to end, in one way or the other. -/
theorem reactor_enabled {s : State} (hinside : s.phase ≠ .outside) :
    ∃ a t, a.ofReactor = true ∧ a ≠ .process ∧ machine.step s a = some t := by
  cases hphase : s.phase with
  | outside => exact absurd hphase hinside
  | looping batch n =>
      cases batch with
      | nil => exact ⟨.leave, _, rfl, nofun, by simp only [machine, step, hphase]; rfl⟩
      | cons task batch =>
          exact ⟨.take, _, rfl, nofun, by simp only [machine, step, hphase]; rfl⟩
  | taken task batch n =>
      cases hcallable : task.callable with
      | false =>
          exact ⟨.invoke, _, rfl, nofun, by
            simp only [machine, step, hphase, hcallable]; rfl⟩
      | true =>
          exact ⟨.invoke, _, rfl, nofun, by
            simp only [machine, step, hphase, hcallable]; rfl⟩
  | running task batch n =>
      exact ⟨.complete, _, rfl, nofun, by simp only [machine, step, hphase]; rfl⟩
  | caught batch =>
      exact ⟨.restore, _, rfl, nofun, by simp only [machine, step, hphase]; rfl⟩

/-- The queue does its duty: the counter is the number of posted tasks not yet
taken and is never decremented at zero; each posted task is in exactly one of the
tasks taken, the local queue and the shared queue, and those taken are started once
each; a call takes only tasks posted before its swap and ends after a bounded number
of its own steps, whatever is posted; and a call that returns has run all tasks of
its swap. -/
structure RunsEachOnce (s : State) : Prop where
  counter : s.posted.pendingCount = s.untaken.length
  decrement : ∀ t, machine.step s .take = some t →
    s.posted.pendingCount = t.posted.pendingCount + 1
  distinct : s.log.Nodup
  placed : s.log.Perm (s.taken ++ s.phase.batch ++ s.posted.queue)
  startedOnce : s.started.Nodup
  startsTaken : s.started ++ s.phase.inHand = s.taken.filter Task.callable
  fromSwap : s.phase ≠ .outside → s.call.runs <+: s.call.swapped
  postedBefore : ∀ task ∈ s.call.swapped, task ∈ s.log.take s.call.before
  bounded : ∀ word t, .process ∉ word → machine.exec s word = some t →
    word.countP Action.ofReactor ≤ s.phase.work
  proceeds : s.phase ≠ .outside →
    ∃ a t, a.ofReactor = true ∧ a ≠ .process ∧ machine.step s a = some t
  endedCalls : ∀ call outcome, (call, outcome) ∈ s.calls →
    call.runs <+: call.swapped ∧
    (∀ task ∈ call.swapped, task ∈ s.log.take call.before) ∧
    ∀ n, outcome = .returned n →
      ∀ task ∈ call.swapped, task.callable → task ∈ s.completed

theorem process_runs_each_once {s : State} (hs : machine.Reachable s) :
    RunsEachOnce s := by
  have hinv := reachable_consistent hs
  exact
    { counter := hinv.pendingCount
      decrement := fun t hstep => hinv.take_pendingCount hstep
      distinct := hinv.log_nodup
      placed := by simpa [State.waiting] using hinv.placed
      startedOnce := hinv.started_nodup
      startsTaken := hinv.started
      fromSwap := hinv.runs_prefix
      postedBefore := hinv.posted.2
      bounded := fun word t hword hexec =>
        Nat.le_trans (Nat.le_add_left _ _) (exec_work hword hexec)
      proceeds := reactor_enabled
      endedCalls := fun call outcome hmem => by
        obtain ⟨hended, hposted⟩ := hinv.ended call outcome hmem
        refine ⟨?_, hposted.2, fun n hreturned => ?_⟩
        · cases outcome with
          | returned n => exact hended.1 ▸ List.prefix_rfl
          | threw => exact hended
        · subst hreturned
          exact hended.2.2 }

/-- The first task posts another one and throws, the second call runs the tail of
the first batch behind it. -/
theorem process_runs_each_once_after_throw :
    ∃ s, machine.Reachable s ∧
      (RunsEachOnce s ∧ s.taken.map Task.id = [0, 2, 1] ∧
        s.calls.map Prod.snd = [.threw, .returned 2]) := by
  obtain ⟨s, hs, hcheck⟩ := machine.exists_reachable_of_exec
    [.post true, .post true, .process, .take, .invoke, .post true, .fail, .restore,
      .process, .take, .invoke, .complete, .take, .invoke, .complete, .leave]
    (fun s => decide (s.taken.map Task.id = [0, 2, 1] ∧
      s.calls.map Prod.snd = [.threw, .returned 2]))
    (by decide)
  exact ⟨s, hs, process_runs_each_once hs, of_decide_eq_true hcheck⟩

/-! ### The order of the starts -/

/-- Every task posted before a started one was started before it; an empty function
is never started. -/
def StartsInOrder (s : State) : Prop :=
  ∀ earlier b later, s.started = earlier ++ b :: later →
    ∀ a ∈ s.log, a.callable → a.id < b.id → a ∈ earlier

/-- The handler puts the rest of the batch back behind no newer task, or it has
nothing to put back; empty functions do not count. -/
def Behind (s : State) : Action → Prop
  | .restore =>
      s.phase.batch.filter Task.callable = [] ∨
        s.posted.queue.filter Task.callable = []
  | _ => True

instance (s : State) : ∀ a, Decidable (Behind s a)
  | .restore => inferInstanceAs (Decidable (_ ∨ _))
  | .post _ | .process | .take | .invoke | .complete | .fail | .leave =>
      .isTrue trivial

/-- The callable tasks in the order in which they are or will be started. -/
def State.line (s : State) : List Task :=
  s.started ++ s.phase.inHand ++ s.waiting.filter Task.callable

def Ordered (s : State) : Prop :=
  s.line = s.log.filter Task.callable

theorem start_ordered : Ordered machine.start := rfl

theorem restore_line {s : State} {batch : List Task} (hphase : s.phase = .caught batch)
    (hbehind : batch.filter Task.callable = [] ∨
      s.posted.queue.filter Task.callable = []) :
    (s.posted.restore batch).queue.filter Task.callable =
      s.waiting.filter Task.callable := by
  simp only [State.waiting, hphase, Phase.batch, PostedQueue.restore,
    List.filter_append]
  rcases hbehind with hnone | hnone <;> simp [hnone]

/-- No step but the handler's changes the line, apart from a post at its end. -/
theorem step_ordered {s t : State} {a : Action} (hs : Ordered s)
    (hbehind : Behind s a) (hstep : machine.step s a = some t) : Ordered t := by
  unfold Ordered at hs ⊢
  cases a with
  | post callable =>
      obtain rfl := Option.some.inj hstep
      simp only [State.line, State.waiting, PostedQueue.post, List.filter_append,
        ← List.append_assoc] at hs ⊢
      rw [hs]
  | process =>
      simp only [machine, step] at hstep
      split at hstep
      next houtside =>
        simp only [State.line, State.waiting, houtside, Phase.batch, Phase.inHand] at hs
        split at hstep
        next hnone =>
          have hqueue : s.posted.queue = [] := hnone
          obtain rfl := Option.some.inj hstep
          simpa [State.line, State.waiting, houtside, Phase.batch, Phase.inHand,
            PostedQueue.swap, hqueue] using hs
        next =>
          obtain rfl := Option.some.inj hstep
          simpa [State.line, State.waiting, Phase.batch, Phase.inHand,
            PostedQueue.swap] using hs
      next => cases hstep
  | take =>
      simp only [machine, step] at hstep
      split at hstep
      next task batch n hphase =>
        obtain rfl := Option.some.inj hstep
        rw [← hs]
        cases hcallable : task.callable <;>
          simp [State.line, State.waiting, hphase, Phase.batch, Phase.inHand,
            PostedQueue.take, hcallable]
      next => cases hstep
  | invoke =>
      simp only [machine, step] at hstep
      split at hstep
      next task batch n hphase =>
        split at hstep
        next hcallable =>
          obtain rfl := Option.some.inj hstep
          rw [← hs]
          simp [State.line, State.waiting, hphase, Phase.batch, Phase.inHand, hcallable]
        next hcallable =>
          obtain rfl := Option.some.inj hstep
          rw [← hs]
          simp [State.line, State.waiting, hphase, Phase.batch, Phase.inHand, hcallable]
      next => cases hstep
  | complete | fail | leave =>
      simp only [machine, step] at hstep
      split at hstep
      next hphase =>
        obtain rfl := Option.some.inj hstep
        rw [← hs]
        simp [State.line, State.waiting, hphase, Phase.batch, Phase.inHand]
      next => cases hstep
  | restore =>
      simp only [machine, step] at hstep
      split at hstep
      next batch hphase =>
        obtain rfl := Option.some.inj hstep
        have hline := restore_line hphase (by
          simpa only [Behind, hphase, Phase.batch] using hbehind)
        rw [← hs]
        simp only [State.line, hphase, Phase.inHand, List.append_nil, ← hline]
        rfl
      next => cases hstep

/-- A task of the log with a smaller number stands before the other one in every
beginning of the line. -/
theorem startsInOrder_of_ordered {s : State} (hs : Consistent s)
    (hordered : Ordered s) : StartsInOrder s := by
  intro earlier b later hstarted a ha hcallable hlt
  have hsorted : (s.log.map Task.id).Pairwise (· < ·) :=
    hs.ids ▸ List.pairwise_lt_range
  have hline : s.log.filter Task.callable =
      earlier ++ b :: (later ++ s.phase.inHand ++ s.waiting.filter Task.callable) := by
    rw [← hordered, State.line, hstarted]
    simp
  have hfiltered : (s.log.filter Task.callable).Pairwise fun a b => a.id < b.id :=
    (List.pairwise_map.mp hsorted).filter _
  rw [hline] at hfiltered
  have hmem : a ∈ s.log.filter Task.callable := List.mem_filter.mpr ⟨ha, hcallable⟩
  rw [hline] at hmem
  rcases List.mem_append.mp hmem with hbefore | hafter
  · exact hbefore
  · rcases List.mem_cons.mp hafter with rfl | hlater
    · exact absurd hlt (Nat.lt_irrefl _)
    · have htail := (List.pairwise_cons.mp (List.pairwise_append.mp hfiltered).2.1).1
      exact absurd hlt (Nat.lt_asymm (htail a hlater))

/-- As long as no failed call puts tasks back behind newer ones, the tasks start in
the order of their posts. -/
theorem starts_in_order_of_behind {s : State}
    (hs : machine.ReachableUnder Behind s) : StartsInOrder s := by
  have hconsistent : Consistent s := hs.invariant start_consistent
    fun _ _ _ hinv _ hstep => step_consistent hinv hstep
  have hordered : Ordered s := hs.invariant start_ordered
    fun _ _ _ hinv hbehind hstep => step_ordered hinv hbehind hstep
  exact startsInOrder_of_ordered hconsistent hordered

theorem starts_in_order_after_throw :
    ∃ s, machine.ReachableUnder Behind s ∧
      (StartsInOrder s ∧ s.started.map Task.id = [0, 1, 2] ∧
        s.calls.map Prod.snd = [.threw, .returned 2]) := by
  obtain ⟨s, hs, hcheck⟩ := machine.exists_reachableUnder_of_execUnder Behind
    [.post true, .post true, .process, .take, .invoke, .fail, .restore, .post true,
      .process, .take, .invoke, .complete, .take, .invoke, .complete, .leave]
    (fun s => decide (s.started.map Task.id = [0, 1, 2] ∧
      s.calls.map Prod.snd = [.threw, .returned 2]))
    (by decide)
  exact ⟨s, hs, starts_in_order_of_behind hs, of_decide_eq_true hcheck⟩

/-- Task 0 posts task 2 and throws while task 1 is still in the batch; the next call
starts task 2 before task 1. -/
theorem not_starts_in_order_after_throw :
    ¬ ∀ s, machine.Reachable s → StartsInOrder s := by
  intro hall
  obtain ⟨s, hs, hcheck⟩ := machine.exists_reachable_of_exec
    [.post true, .post true, .process, .take, .invoke, .post true, .fail, .restore,
      .process, .take, .invoke]
    (fun s => decide (s.started = [⟨0, true⟩, ⟨2, true⟩] ∧ ⟨1, true⟩ ∈ s.log))
    (by decide)
  obtain ⟨hstarted, hlog⟩ := of_decide_eq_true hcheck
  have hbefore := hall s hs [⟨0, true⟩] ⟨2, true⟩ [] hstarted ⟨1, true⟩ hlog rfl
    (by decide)
  exact absurd hbefore (by decide)

end PostedRun

end Iocoro
