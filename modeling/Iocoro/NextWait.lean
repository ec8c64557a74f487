/-
How long the loop sleeps: `next_wait` takes the earlier of the next timer and
the deadline of `run_for`, and each backend turns the milliseconds into what the
kernel expects.  Time points are integers of nanoseconds; the clock counts from
the start of the machine, so a later time point minus an earlier one fits 64
bits.
-/
import Iocoro.TimerRegistry

universe u

namespace Iocoro

namespace NextWait

variable {Op : Type u}

/-- `next_wait`, with the sample of the clock in `next_timeout` and its own. -/
def nextWait (r : TimerRegistry Op) (timerNow deadlineNow : Int)
    (deadline : Option Int) : Option Int :=
  let timerTimeout := r.nextTimeout timerNow
  match deadline with
  | none => timerTimeout
  | some deadline =>
      if deadline ≤ deadlineNow then some 0
      else
        let remaining := (deadline - deadlineNow).tdiv 1000000
        match timerTimeout with
        | none => some remaining
        | some timeout => some (min remaining timeout)

/-- The `int` that `backend_epoll::wait` passes to `epoll_wait`. -/
def epollTimeout : Option Int → Int
  | none => -1
  | some timeout => FixedWidth.toInt 32 timeout

structure Timespec where
  tvSec : Int
  tvNsec : Int
deriving DecidableEq, Repr

def toTimespec (ms : Int) : Timespec :=
  let clamped := min ms (2 ^ 31 - 1)
  { tvSec := clamped.tdiv 1000
    tvNsec := clamped.tmod 1000 * 1000 * 1000 }

/-- What `backend_uring::wait` passes to the ring. -/
def uringTimeout (timeout : Option Int) : Option Timespec :=
  timeout.map toTimespec

/-- How long `epoll_wait` sleeps at most, in nanoseconds; a negative timeout is
no bound. -/
def epollBound (timeout : Int) : Option Int :=
  if timeout < 0 then none else some (timeout * 1000000)

/-- The same for a wait on the ring; the kernel wants a normal timespec. -/
def uringBound : Option Timespec → Option Int
  | none => none
  | some ts =>
      if 0 ≤ ts.tvSec ∧ 0 ≤ ts.tvNsec ∧ ts.tvNsec < 1000000000 then
        some (ts.tvSec * 1000000000 + ts.tvNsec)
      else none

/-- A sleep of `t` nanoseconds ends in time: at once when the first timer is
cancelled or due or the deadline has passed, else before either. -/
structure InTime (top : TimerRegistry.TimerNode Op)
    (timerNow deadlineNow : Int) (deadline : Option Int) (t : Int) : Prop where
  nonneg : 0 ≤ t
  due : top.state = .cancelled ∨ top.expiry ≤ timerNow → t = 0
  timer : timerNow < top.expiry → timerNow + t ≤ top.expiry
  passed : ∀ d, deadline = some d → d ≤ deadlineNow → t = 0
  deadline : ∀ d, deadline = some d → deadlineNow < d → deadlineNow + t ≤ d

/-- Both backends hand the kernel a finite bound that ends in time. -/
def SleepsInTime (r : TimerRegistry Op) (top : TimerRegistry.TimerNode Op)
    (timerNow deadlineNow : Int) (deadline : Option Int) : Prop :=
  (∃ t, epollBound (epollTimeout
      (nextWait r timerNow deadlineNow deadline)) = some t ∧
    InTime top timerNow deadlineNow deadline t) ∧
  ∃ t, uringBound (uringTimeout
      (nextWait r timerNow deadlineNow deadline)) = some t ∧
    InTime top timerNow deadlineNow deadline t

/-- The nanoseconds to the first timer or to the deadline, whichever is less. -/
def soonest (top : TimerRegistry.TimerNode Op) (timerNow deadlineNow : Int) :
    Option Int → Int
  | none => top.expiry - timerNow
  | some deadline => min (top.expiry - timerNow) (deadline - deadlineNow)

/-- There is nothing to sleep for, or the whole milliseconds to sleep have
their bit 31 clear. -/
def FitsInt (top : TimerRegistry.TimerNode Op) (timerNow deadlineNow : Int)
    (deadline : Option Int) : Prop :=
  top.state = .cancelled ∨ soonest top timerNow deadlineNow deadline ≤ 0 ∨
    soonest top timerNow deadlineNow deadline / 1000000 % 2 ^ 32 < 2 ^ 31

/-! ### What `next_wait` computes -/

/-- The milliseconds of `next_wait` when the heap has a first timer. -/
def wholeMillis (top : TimerRegistry.TimerNode Op) (timerNow deadlineNow : Int)
    (deadline : Option Int) : Int :=
  if top.state = .cancelled ∨ soonest top timerNow deadlineNow deadline ≤ 0 then
    0
  else soonest top timerNow deadlineNow deadline / 1000000

/-- A timer that is not due is waited for in whole milliseconds. -/
theorem nextTimeout_eq (r : TimerRegistry Op) {index : Nat} {rest : List Nat}
    (hheap : r.heap = index :: rest) (now : Int) :
    r.nextTimeout now =
      some (if (r.node index).state = .cancelled then 0
        else max 0 (((r.node index).expiry - now) / 1000000)) := by
  simp only [TimerRegistry.nextTimeout, hheap]
  by_cases hcancelled : (r.node index).state = .cancelled
  · simp [hcancelled]
  · by_cases hdue : (r.node index).expiry ≤ now
    · simp only [hcancelled, hdue, ↓reduceIte, Option.some.injEq]
      omega
    · have hdiv := Int.tdiv_eq_ediv_of_nonneg (b := 1000000)
        (show 0 ≤ (r.node index).expiry - now by omega)
      simp only [hcancelled, hdue, ↓reduceIte, hdiv, Option.some.injEq]
      omega

theorem nextWait_eq (r : TimerRegistry Op) {index : Nat} {rest : List Nat}
    (hheap : r.heap = index :: rest) (timerNow deadlineNow : Int)
    (deadline : Option Int) :
    nextWait r timerNow deadlineNow deadline =
      some (wholeMillis (r.node index) timerNow deadlineNow deadline) := by
  by_cases hcancelled : (r.node index).state = .cancelled
  · cases deadline with
    | none => simp [nextWait, nextTimeout_eq r hheap, wholeMillis, hcancelled]
    | some d =>
        by_cases hpassed : d ≤ deadlineNow
        · simp [nextWait, wholeMillis, hcancelled, hpassed]
        · have hdiv := Int.tdiv_eq_ediv_of_nonneg (b := 1000000)
            (show 0 ≤ d - deadlineNow by omega)
          simp only [nextWait, nextTimeout_eq r hheap, wholeMillis, hcancelled,
            hpassed, hdiv, ↓reduceIte, true_or, Option.some.injEq]
          omega
  · cases deadline with
    | none =>
        simp only [nextWait, nextTimeout_eq r hheap, wholeMillis, hcancelled,
          soonest, ↓reduceIte, false_or, Option.some.injEq]
        split <;> omega
    | some d =>
        by_cases hpassed : d ≤ deadlineNow
        · simp only [nextWait, wholeMillis, hcancelled, soonest, hpassed,
            ↓reduceIte, false_or, Option.some.injEq]
          split <;> omega
        · have hdiv := Int.tdiv_eq_ediv_of_nonneg (b := 1000000)
            (show 0 ≤ d - deadlineNow by omega)
          simp only [nextWait, nextTimeout_eq r hheap, wholeMillis, hcancelled,
            soonest, hpassed, hdiv, ↓reduceIte, false_or, Option.some.injEq]
          split <;> omega

/-- Sleeping the whole milliseconds ends in time, and so does any shorter
sleep. -/
theorem inTime_of_le {top : TimerRegistry.TimerNode Op}
    {timerNow deadlineNow : Int} {deadline : Option Int} {t : Int}
    (hnonneg : 0 ≤ t)
    (hle : t ≤ wholeMillis top timerNow deadlineNow deadline * 1000000) :
    InTime top timerNow deadlineNow deadline t := by
  have hsoon : soonest top timerNow deadlineNow deadline ≤
      top.expiry - timerNow := by
    cases deadline with
    | none => exact le_refl _
    | some d => exact min_le_left _ _
  have hdeadline : ∀ d, deadline = some d →
      soonest top timerNow deadlineNow deadline ≤ d - deadlineNow := by
    rintro d rfl
    exact min_le_right _ _
  have hzero : top.state = .cancelled ∨
      soonest top timerNow deadlineNow deadline ≤ 0 → t = 0 := by
    intro hnothing
    rw [wholeMillis, if_pos hnothing] at hle
    omega
  have hbound : t = 0 ∨ t ≤ soonest top timerNow deadlineNow deadline := by
    by_cases hnothing : top.state = .cancelled ∨
        soonest top timerNow deadlineNow deadline ≤ 0
    · exact Or.inl (hzero hnothing)
    · rw [wholeMillis, if_neg hnothing] at hle
      right
      omega
  refine ⟨hnonneg, ?_, by omega, ?_, ?_⟩
  · rintro (hcancelled | hdue)
    · exact hzero (Or.inl hcancelled)
    · exact hzero (Or.inr (by omega))
  · intro d hd hpassed
    have := hdeadline d hd
    exact hzero (Or.inr (by omega))
  · intro d hd hfuture
    have := hdeadline d hd
    omega

theorem wholeMillis_nonneg (top : TimerRegistry.TimerNode Op)
    (timerNow deadlineNow : Int) (deadline : Option Int) :
    0 ≤ wholeMillis top timerNow deadlineNow deadline := by
  unfold wholeMillis
  split <;> omega

/-! ### What the backends make of it -/

/-- The clamp keeps the ring within the milliseconds asked for. -/
theorem uringBound_spec {ms : Int} (hms : 0 ≤ ms) :
    ∃ t, uringBound (uringTimeout (some ms)) = some t ∧ 0 ≤ t ∧
      t ≤ ms * 1000000 := by
  have hclamped : 0 ≤ min ms (2 ^ 31 - 1) := by omega
  have hdiv := Int.tdiv_eq_ediv_of_nonneg (b := 1000) hclamped
  have hmod := Int.tmod_eq_emod_of_nonneg (b := 1000) hclamped
  refine ⟨min ms (2 ^ 31 - 1) * 1000000, ?_, by omega, by omega⟩
  simp only [uringTimeout, Option.map_some, uringBound, toTimespec, hdiv, hmod]
  rw [if_pos (by omega)]
  congr 1
  omega

/-- The `int` is non-negative exactly when bit 31 of the count is clear, and
then it is no more than the count. -/
theorem epollTimeout_nonneg_iff (ms : Int) :
    0 ≤ epollTimeout (some ms) ↔ ms % 2 ^ 32 < 2 ^ 31 := by
  simp only [epollTimeout, FixedWidth.toInt, Int.bmod_def]
  split <;> omega

theorem epollTimeout_le {ms : Int} (hms : 0 ≤ ms) :
    epollTimeout (some ms) ≤ ms := by
  simp only [epollTimeout, FixedWidth.toInt, Int.bmod_def]
  split <;> omega

/-- With a timer in the heap, both backends sleep in time exactly when there is
nothing to sleep for or the milliseconds survive the conversion to `int`. -/
theorem sleepsInTime_iff_fitsInt (r : TimerRegistry Op) {index : Nat}
    {rest : List Nat} (hheap : r.heap = index :: rest)
    (timerNow deadlineNow : Int) (deadline : Option Int) :
    SleepsInTime r (r.node index) timerNow deadlineNow deadline ↔
      FitsInt (r.node index) timerNow deadlineNow deadline := by
  have hnonneg := wholeMillis_nonneg (r.node index) timerNow deadlineNow deadline
  have hfits : FitsInt (r.node index) timerNow deadlineNow deadline ↔
      0 ≤ epollTimeout
        (some (wholeMillis (r.node index) timerNow deadlineNow deadline)) := by
    rw [epollTimeout_nonneg_iff, wholeMillis, FitsInt]
    by_cases hnothing : (r.node index).state = .cancelled ∨
        soonest (r.node index) timerNow deadlineNow deadline ≤ 0
    · rw [if_pos hnothing]
      simp [← or_assoc, hnothing]
    · rw [if_neg hnothing, ← or_assoc]
      simp [hnothing]
  rw [SleepsInTime, nextWait_eq r hheap, hfits]
  constructor
  · rintro ⟨⟨t, hbound, _⟩, _⟩
    by_contra hnegative
    rw [not_le] at hnegative
    simp [epollBound, hnegative] at hbound
  · intro hepoll
    refine ⟨⟨_, if_neg (not_lt.mpr hepoll), inTime_of_le ?_ ?_⟩, ?_⟩
    · omega
    · have := epollTimeout_le hnonneg
      omega
    · obtain ⟨t, hbound, ht, hle⟩ := uringBound_spec hnonneg
      exact ⟨t, hbound, inTime_of_le ht hle⟩

/-- One timer, at so many nanoseconds. -/
def oneTimer (expiry : Int) : TimerRegistry Nat :=
  (({} : TimerRegistry Nat).addTimer (BinaryHeap.sorted Nat) expiry (some 0)).1

theorem oneTimer_heap (expiry : Int) : (oneTimer expiry).heap = [0] := by
  simp [oneTimer, TimerRegistry.addTimer, TimerRegistry.allocate,
    TimerRegistry.pushHeap, TimerRegistry.setNode, BinaryHeap.sorted,
    BinaryHeap.sort, FixedWidth.truncate]

/-- A timer ten days ahead and a deadline of one second. -/
theorem sleepsInTime_tenDays :
    SleepsInTime (oneTimer 864000000000000) ((oneTimer 864000000000000).node 0)
      0 0 (some 1000000000) := by
  apply (sleepsInTime_iff_fitsInt _ (oneTimer_heap _) 0 0 _).mpr
  right
  right
  decide

/-- A timer twenty-five days ahead makes the timeout of `epoll_wait`
negative. -/
theorem not_sleepsInTime_twentyFiveDays :
    ¬ ∀ (r : TimerRegistry Nat) (index : Nat) (rest : List Nat)
      (timerNow deadlineNow : Int) (deadline : Option Int),
      r.heap = index :: rest →
      SleepsInTime r (r.node index) timerNow deadlineNow deadline := by
  intro hall
  obtain ⟨⟨t, hbound, _⟩, _⟩ := hall (oneTimer 2160000000000000) 0 [] 0 0 none
    (oneTimer_heap _)
  rw [nextWait_eq _ (oneTimer_heap _)] at hbound
  have hnegative : epollTimeout (some (wholeMillis
      ((oneTimer 2160000000000000).node 0) 0 0 none)) < 0 := by decide
  simp [epollBound, hnegative] at hbound

end NextWait

end Iocoro
