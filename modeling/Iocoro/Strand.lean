/-
`strand_executor`: serial execution on top of an executor that may run posted
functions concurrently.  The locked sections of the strand's state are the
steps, next to the posts to the base executor and the starts and ends of tasks.
-/
import Iocoro.TransitionSystem
import Mathlib.Data.List.ReduceOption

namespace Iocoro

universe u

namespace Strand

variable {Task : Type u}

/-- Where one execution of `drain` stands; `ran` is its local counter `n`. -/
inductive DrainPc (Task : Type u) where
  | pop (ran : Nat)
  | start (ran : Nat) (task : Task)
  | running (ran : Nat)
  | leave (emptied : Bool)
  | repost
deriving DecidableEq, Repr

/-- The strand's `state`, the calls and drains in flight, and two logs.  A task
that is `none` is an empty function object.  `posting` counts the calls whose
`enqueue` returned true and that have yet to post a drain, `scheduled` the
drains posted and not started. -/
structure State (Task : Type u) where
  tasks : List (Option Task) := []
  active : Bool := false
  posting : Nat := 0
  scheduled : Nat := 0
  drains : List (DrainPc Task) := []
  accepted : List (Option Task) := []
  started : List Task := []
deriving DecidableEq, Repr

/-- `max_drain_per_tick`. -/
def maxDrainPerTick : Nat := 256

/-- `state::enqueue`: the new state and whether a drain has to be scheduled. -/
def State.enqueue (s : State Task) (task : Option Task) : State Task × Bool :=
  let queued := { s with
    tasks := s.tasks ++ [task], accepted := s.accepted ++ [task] }
  if s.active then (queued, false) else ({ queued with active := true }, true)

/-- `state::pop_one`: `none` when the queue is empty, else its front. -/
def State.popOne (s : State Task) : State Task × Option (Option Task) :=
  match s.tasks with
  | [] => ({ s with active := false }, none)
  | task :: rest => ({ s with tasks := rest }, some task)

/-- `state::should_schedule_drain`. -/
def State.shouldScheduleDrain (s : State Task) : State Task × Bool :=
  if s.tasks.isEmpty then ({ s with active := false }, false) else (s, true)

/-- The head of the drain loop after `ran` tasks. -/
def loopHead (ran : Nat) : DrainPc Task :=
  if ran < maxDrainPerTick then .pop ran else .leave false

/-- What the drain loop does with the result of `pop_one`: an empty queue and
an empty function object both end the loop. -/
def afterPop (ran : Nat) : Option (Option Task) → DrainPc Task
  | none => .leave true
  | some none => .leave false
  | some (some task) => .start ran task

inductive Action (Task : Type u) where
  | enqueue (task : Option Task)
  | postDrain
  | beginDrain
  | popOne (ran : Nat)
  | startTask (ran : Nat) (task : Task)
  | taskReturns (ran : Nat)
  | taskThrows (ran : Nat)
  | shouldSchedule (emptied : Bool)
  | repost
deriving DecidableEq, Repr

/-- The task a drain has popped and not started. -/
def DrainPc.inHand : DrainPc Task → List Task
  | .start _ task => [task]
  | _ => []

/-- Who is responsible for the queue.  An inactive strand has nothing queued
and at most a drain on its way out; an active one has exactly one caller about
to post a drain, or one scheduled drain, or one running drain. -/
def Holder (s : State Task) : Prop :=
  (s.active = false ∧ s.tasks = [] ∧ s.posting = 0 ∧ s.scheduled = 0 ∧
    (s.drains = [] ∨ s.drains = [.leave true])) ∨
  (s.active = true ∧
    ((s.posting = 1 ∧ s.scheduled = 0 ∧ s.drains = []) ∨
      (s.posting = 0 ∧ s.scheduled = 1 ∧ s.drains = []) ∨
      (s.posting = 0 ∧ s.scheduled = 0 ∧
        ∃ pc, s.drains = [pc] ∧ pc ≠ .leave true)))

/-- Started tasks, the task in the hand of a drain, and the queue make up what
was accepted. -/
def Ordered (s : State Task) : Prop :=
  s.accepted.reduceOption =
    s.started ++ s.drains.flatMap DrainPc.inHand ++ s.tasks.reduceOption

structure Inv (s : State Task) : Prop where
  holder : Holder s
  ordered : Ordered s

/-- A running drain is the only holder; it is on its way out of an emptied
queue exactly when the strand is inactive. -/
theorem Holder.running {s : State Task} {pc : DrainPc Task} (hs : Holder s)
    (hpc : pc ∈ s.drains) :
    s.drains = [pc] ∧ s.posting = 0 ∧ s.scheduled = 0 ∧
      (pc = .leave true → s.tasks = []) ∧
      (pc ≠ .leave true → s.active = true) := by
  rcases hs with ⟨_, htasks, hposting, hscheduled, hdrains⟩ | ⟨hactive, hs⟩
  · rcases hdrains with hdrains | hdrains
    · simp [hdrains] at hpc
    · simp only [hdrains, List.mem_singleton] at hpc
      subst hpc
      exact ⟨hdrains, hposting, hscheduled, fun _ => htasks, by simp⟩
  · rcases hs with ⟨_, _, hdrains⟩ | ⟨_, _, hdrains⟩ |
      ⟨hposting, hscheduled, only, hdrains, hne⟩
    · simp [hdrains] at hpc
    · simp [hdrains] at hpc
    · simp only [hdrains, List.mem_singleton] at hpc
      subst hpc
      exact ⟨hdrains, hposting, hscheduled, fun heq => absurd heq hne,
        fun _ => hactive⟩

theorem loopHead_ne_leave (ran : Nat) :
    (loopHead ran : DrainPc Task) ≠ .leave true := by
  unfold loopHead
  split <;> simp

@[simp] theorem loopHead_inHand (ran : Nat) :
    (loopHead ran : DrainPc Task).inHand = [] := by
  unfold loopHead
  split <;> rfl

variable [DecidableEq Task]

/-- Replace one running drain by its next stage, or by nothing. -/
def State.advance (s : State Task) (old : DrainPc Task)
    (new : List (DrainPc Task)) : State Task :=
  { s with drains := new ++ s.drains.erase old }

/-- One step of a caller of `post` or `dispatch`, of the base executor, or of a
running drain.  A dispatch from inside the strand runs its function as part of
the current task and is no step. -/
def step (s : State Task) : Action Task → Option (State Task)
  | .enqueue task =>
      let (t, schedule) := s.enqueue task
      some (if schedule then { t with posting := t.posting + 1 } else t)
  | .postDrain =>
      if 0 < s.posting then
        some { s with posting := s.posting - 1, scheduled := s.scheduled + 1 }
      else none
  | .beginDrain =>
      if 0 < s.scheduled then
        some { s with
          scheduled := s.scheduled - 1, drains := loopHead 0 :: s.drains }
      else none
  | .popOne ran =>
      if .pop ran ∈ s.drains then
        let (t, popped) := s.popOne
        some (t.advance (.pop ran) [afterPop ran popped])
      else none
  | .startTask ran task =>
      if .start ran task ∈ s.drains then
        some { s.advance (.start ran task) [.running ran] with
          started := s.started ++ [task] }
      else none
  | .taskReturns ran =>
      if .running ran ∈ s.drains then
        some (s.advance (.running ran) [loopHead (ran + 1)])
      else none
  | .taskThrows ran =>
      if .running ran ∈ s.drains then
        some (s.advance (.running ran) [.leave false])
      else none
  | .shouldSchedule emptied =>
      if .leave emptied ∈ s.drains then
        let (t, again) := s.shouldScheduleDrain
        some (t.advance (.leave emptied) (if again then [.repost] else []))
      else none
  | .repost =>
      if .repost ∈ s.drains then
        some { s.advance .repost [] with scheduled := s.scheduled + 1 }
      else none

def system (Task : Type u) [DecidableEq Task] :
    TransitionSystem (State Task) (Action Task) where
  start := {}
  step := step

/-- No task is enqueued between the `pop_one` that finds the queue empty and
the `should_schedule_drain` of the same drain. -/
def avoidsHandover (s : State Task) : Action Task → Bool
  | .enqueue _ => !s.drains.contains (.leave true)
  | _ => true

/-- The only running drain moves on to another stage inside the loop. -/
theorem Inv.move {s : State Task} {old new : DrainPc Task} (hs : Inv s)
    (hold : old ∈ s.drains) (hne : old ≠ .leave true)
    (hnew : new ≠ .leave true) (hhand : old.inHand = new.inHand) :
    Inv (s.advance old [new]) := by
  obtain ⟨hdrains, hposting, hscheduled, _, hactive⟩ := hs.holder.running hold
  constructor
  · right
    refine ⟨hactive hne, Or.inr (Or.inr ⟨hposting, hscheduled, new, ?_, hnew⟩)⟩
    simp [State.advance, hdrains]
  · have hordered := hs.ordered
    simp only [Ordered, State.advance, hdrains, List.erase_cons_head,
      List.append_nil, List.flatMap_cons, List.flatMap_nil] at hordered ⊢
    rw [hordered, hhand]

theorem enqueue_inv {s t : State Task} {task : Option Task} (hs : Inv s)
    (havoids : avoidsHandover s (.enqueue task) = true)
    (hstep : step s (.enqueue task) = some t) : Inv t := by
  have hordered := hs.ordered
  have hqueued : (s.accepted ++ [task]).reduceOption =
      s.started ++ s.drains.flatMap DrainPc.inHand ++
        (s.tasks ++ [task]).reduceOption := by
    rw [Ordered] at hordered
    rw [List.reduceOption_append, List.reduceOption_append, hordered,
      List.append_assoc]
  simp only [avoidsHandover, Bool.not_eq_true', List.contains_eq_mem,
    decide_eq_false_iff_not] at havoids
  simp only [step, State.enqueue, Option.some.injEq] at hstep
  rcases hs.holder with
    ⟨hactive, _, hposting, hscheduled, hdrains⟩ | ⟨hactive, hone⟩
  · simp only [hactive, Bool.false_eq_true, ↓reduceIte] at hstep
    subst hstep
    have hnone : s.drains = [] := by
      rcases hdrains with hnone | hlast
      · exact hnone
      · simp [hlast] at havoids
    refine ⟨Or.inr ⟨rfl, Or.inl ⟨?_, hscheduled, hnone⟩⟩, hqueued⟩
    simp [hposting]
  · simp only [hactive, ↓reduceIte, Bool.false_eq_true] at hstep
    subst hstep
    exact ⟨Or.inr ⟨rfl, hone⟩, hqueued⟩

theorem postDrain_inv {s t : State Task} (hs : Inv s)
    (hstep : step s .postDrain = some t) : Inv t := by
  simp only [step] at hstep
  split at hstep
  · next hpos =>
      obtain rfl := Option.some.inj hstep
      refine ⟨?_, hs.ordered⟩
      rcases hs.holder with ⟨_, _, hposting, _⟩ | ⟨hactive, hone⟩
      · omega
      · rcases hone with ⟨hposting, hscheduled, hdrains⟩ | ⟨hposting, _⟩ |
          ⟨hposting, _⟩
        · refine Or.inr ⟨hactive, Or.inr (Or.inl ⟨?_, ?_, hdrains⟩)⟩
          · simp [hposting]
          · simp [hscheduled]
        · omega
        · omega
  · simp at hstep

theorem beginDrain_inv {s t : State Task} (hs : Inv s)
    (hstep : step s .beginDrain = some t) : Inv t := by
  simp only [step] at hstep
  split at hstep
  · next hpos =>
      obtain rfl := Option.some.inj hstep
      have hordered := hs.ordered
      rcases hs.holder with ⟨_, _, _, hscheduled, _⟩ | ⟨hactive, hone⟩
      · omega
      · rcases hone with ⟨_, hscheduled, _⟩ | ⟨hposting, hscheduled, hdrains⟩ |
          ⟨_, hscheduled, _⟩
        · omega
        · refine ⟨Or.inr ⟨hactive, Or.inr (Or.inr ⟨hposting, ?_, loopHead 0,
            ?_, loopHead_ne_leave 0⟩)⟩, ?_⟩
          · simp [hscheduled]
          · simp [hdrains]
          · simpa [Ordered, hdrains] using hordered
        · omega
  · simp at hstep

theorem popOne_inv {s t : State Task} {ran : Nat} (hs : Inv s)
    (hstep : step s (.popOne ran) = some t) : Inv t := by
  simp only [step] at hstep
  split at hstep
  · next hpc =>
      obtain ⟨hdrains, hposting, hscheduled, _, hactive⟩ :=
        hs.holder.running hpc
      have hordered := hs.ordered
      simp only [Option.some.injEq] at hstep
      subst hstep
      cases htasks : s.tasks with
      | nil =>
          constructor
          · left
            simp [State.popOne, State.advance, afterPop, htasks, hdrains,
              hposting, hscheduled]
          · simp_all [Ordered, State.popOne, State.advance, afterPop,
              DrainPc.inHand]
      | cons front rest =>
          constructor
          · right
            cases front <;>
              simp [State.popOne, State.advance, afterPop, htasks, hdrains,
                hposting, hscheduled, hactive]
          · cases front <;>
              simp_all [Ordered, State.popOne, State.advance, afterPop,
                DrainPc.inHand]
  · simp at hstep

theorem startTask_inv {s t : State Task} {ran : Nat} {task : Task} (hs : Inv s)
    (hstep : step s (.startTask ran task) = some t) : Inv t := by
  simp only [step] at hstep
  split at hstep
  · next hpc =>
      obtain ⟨hdrains, hposting, hscheduled, _, hactive⟩ :=
        hs.holder.running hpc
      have hordered := hs.ordered
      simp only [Option.some.injEq] at hstep
      subst hstep
      constructor
      · right
        simp [State.advance, hdrains, hposting, hscheduled, hactive]
      · simp_all [Ordered, State.advance, DrainPc.inHand]
  · simp at hstep

theorem taskReturns_inv {s t : State Task} {ran : Nat} (hs : Inv s)
    (hstep : step s (.taskReturns ran) = some t) : Inv t := by
  simp only [step] at hstep
  split at hstep
  · next hpc =>
      obtain rfl := Option.some.inj hstep
      exact hs.move hpc (by simp) (loopHead_ne_leave _) (loopHead_inHand _).symm
  · simp at hstep

theorem taskThrows_inv {s t : State Task} {ran : Nat} (hs : Inv s)
    (hstep : step s (.taskThrows ran) = some t) : Inv t := by
  simp only [step] at hstep
  split at hstep
  · next hpc =>
      obtain rfl := Option.some.inj hstep
      exact hs.move hpc (by simp) (by simp) rfl
  · simp at hstep

/-- The drain either finds the queue empty and gives up the strand, or goes on
to schedule its successor.  After an emptied queue only the first can happen,
because nothing was enqueued in between. -/
theorem shouldSchedule_inv {s t : State Task} {emptied : Bool} (hs : Inv s)
    (hstep : step s (.shouldSchedule emptied) = some t) : Inv t := by
  simp only [step] at hstep
  split at hstep
  · next hpc =>
      obtain ⟨hdrains, hposting, hscheduled, hemptied, hactive⟩ :=
        hs.holder.running hpc
      have hordered := hs.ordered
      simp only [Option.some.injEq] at hstep
      subst hstep
      cases htasks : s.tasks with
      | nil =>
          constructor
          · left
            simp [State.shouldScheduleDrain, State.advance, htasks, hdrains,
              hposting, hscheduled]
          · simp_all [Ordered, State.shouldScheduleDrain, State.advance,
              DrainPc.inHand]
      | cons front rest =>
          have hfull : DrainPc.leave emptied ≠ (.leave true : DrainPc Task) := by
            intro heq
            rw [hemptied heq] at htasks
            simp at htasks
          constructor
          · right
            simp [State.shouldScheduleDrain, State.advance, htasks, hdrains,
              hposting, hscheduled, hactive hfull]
          · simp_all [Ordered, State.shouldScheduleDrain, State.advance,
              DrainPc.inHand]
  · simp at hstep

theorem repost_inv {s t : State Task} (hs : Inv s)
    (hstep : step s .repost = some t) : Inv t := by
  simp only [step] at hstep
  split at hstep
  · next hpc =>
      obtain ⟨hdrains, hposting, hscheduled, _, hactive⟩ :=
        hs.holder.running hpc
      have hordered := hs.ordered
      simp only [Option.some.injEq] at hstep
      subst hstep
      constructor
      · right
        simp [State.advance, hdrains, hposting, hscheduled, hactive]
      · simp_all [Ordered, State.advance, DrainPc.inHand]
  · simp at hstep

theorem step_inv {s t : State Task} {a : Action Task} (hs : Inv s)
    (havoids : avoidsHandover s a = true) (hstep : step s a = some t) :
    Inv t := by
  cases a with
  | enqueue task => exact enqueue_inv hs havoids hstep
  | postDrain => exact postDrain_inv hs hstep
  | beginDrain => exact beginDrain_inv hs hstep
  | popOne ran => exact popOne_inv hs hstep
  | startTask ran task => exact startTask_inv hs hstep
  | taskReturns ran => exact taskReturns_inv hs hstep
  | taskThrows ran => exact taskThrows_inv hs hstep
  | shouldSchedule emptied => exact shouldSchedule_inv hs hstep
  | repost => exact repost_inv hs hstep

theorem start_inv : Inv (system Task).start :=
  ⟨Or.inl ⟨rfl, rfl, rfl, rfl, Or.inl rfl⟩, rfl⟩

end Strand

end Iocoro
