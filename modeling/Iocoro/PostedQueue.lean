/-
`posted_queue`: the cross-thread queue of tasks posted into an event loop.  The
locked sections and the counter updates are separate functions; `process` is
their composition on the reactor thread.
-/
import Mathlib.Data.List.Basic

namespace Iocoro

universe u

variable {Task : Type u}

/-- `queue_` and `pending_count_`.  The batch that `process` has swapped out is
local to that call and is not part of the queue. -/
structure PostedQueue (Task : Type u) where
  queue : List Task := []
  pendingCount : Nat := 0
deriving DecidableEq, Repr

namespace PostedQueue

/-- `post`: the locked section, with the counter increment inside it. -/
def post (q : PostedQueue Task) (task : Task) : PostedQueue Task :=
  { queue := q.queue ++ [task], pendingCount := q.pendingCount + 1 }

/-- The push of `post`, with the mutex held. -/
def push (q : PostedQueue Task) (task : Task) : PostedQueue Task :=
  { q with queue := q.queue ++ [task] }

/-- The increment that ends the locked section of `post`. -/
def count (q : PostedQueue Task) : PostedQueue Task :=
  { q with pendingCount := q.pendingCount + 1 }

/-- The locked swap at the head of `process`: the batch and what stays. -/
def swap (q : PostedQueue Task) : List Task × PostedQueue Task :=
  (q.queue, { q with queue := [] })

/-- The decrement that goes with taking one task out of the batch. -/
def take (q : PostedQueue Task) : PostedQueue Task :=
  { q with pendingCount := q.pendingCount - 1 }

/-- The locked section of the exception path of `process`: the rest of the
batch is pushed behind whatever was posted meanwhile. -/
def restore (q : PostedQueue Task) (batch : List Task) : PostedQueue Task :=
  { q with queue := q.queue ++ batch }

/-- `has_pending_tasks`. -/
def hasPendingTasks (q : PostedQueue Task) : Bool :=
  decide (0 < q.pendingCount)

/-- The counter agrees with the tasks not yet taken: those still queued and
those in the batch being run. -/
def Counts (q : PostedQueue Task) (batch : List Task) : Prop :=
  q.pendingCount = q.queue.length + batch.length

theorem Counts.post {q : PostedQueue Task} {batch : List Task}
    (hq : q.Counts batch) (task : Task) : (q.post task).Counts batch := by
  simp only [Counts, PostedQueue.post, List.length_append,
    List.length_singleton] at hq ⊢
  omega

theorem Counts.swap {q : PostedQueue Task} (hq : q.Counts []) :
    q.swap.2.Counts q.swap.1 := by
  simpa [Counts, PostedQueue.swap] using hq

theorem Counts.take {q : PostedQueue Task} {task : Task} {batch : List Task}
    (hq : q.Counts (task :: batch)) : q.take.Counts batch := by
  simp only [Counts, PostedQueue.take, List.length_cons] at hq ⊢
  omega

theorem Counts.restore {q : PostedQueue Task} {batch : List Task}
    (hq : q.Counts batch) : (q.restore batch).Counts [] := by
  simpa [Counts, PostedQueue.restore] using hq

theorem Counts.queue_eq_nil {q : PostedQueue Task} {batch : List Task}
    (hq : q.Counts batch) (hnone : q.hasPendingTasks = false) :
    q.queue = [] := by
  simp only [Counts, hasPendingTasks, decide_eq_false_iff_not] at hq hnone
  exact List.length_eq_zero_iff.mp (by omega)

end PostedQueue

end Iocoro
