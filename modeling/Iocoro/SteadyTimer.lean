/-
`steady_timer` on its reactor: waits that register for the expiry they have read,
calls of `expires_at`, `cancel` and the destructor from any thread, and cancellations
on their way to the registry.  A handle is followed from the registration through
`handle`, the local variable of a call and the queue of the reactor.
-/
import Iocoro.TimerExpiry

namespace Iocoro

namespace TimerExpiry

/-! ### Timers that have ended -/

/-- Whether timer `n` has ended, as a count. -/
def ended (timers : List Timer) (n : Nat) : Nat :=
  match timers[n]? with
  | some timer => if timer.status = .pending then 0 else 1
  | none => 0

theorem ended_mark {timers : List Timer} {outcome : Nat → Option Status}
    (hends : ∀ id, outcome id ≠ some .pending)
    (hpending : ∀ id status, outcome id = some status →
      ∃ timer, timers[id]? = some timer ∧ timer.status = .pending) (n : Nat) :
    ended (mark timers outcome) n =
      ended timers n + if (outcome n).isSome then 1 else 0 := by
  cases hcase : outcome n with
  | none =>
      rw [ended, mark_keep hcase]
      rfl
  | some status =>
      obtain ⟨timer, htimer, hstatus⟩ := hpending n status hcase
      have hne : status ≠ .pending := fun heq => hends n (hcase.trans (by rw [heq]))
      simp [ended, mark_getElem?, htimer, hcase, hstatus, hne]

/-- What `cancel` cancels was pending. -/
theorem Tracks.cancel_pending {s : State} (hs : Tracks s) {index token id : Nat}
    (hop : (s.registry.cancel index token).2.op = some id) :
    ∃ timer, s.timers[id]? = some timer ∧ timer.status = .pending := by
  rw [TimerRegistry.cancel_eq] at hop
  split at hop
  next hmatch =>
    obtain ⟨timer, htimer, hstatus, _⟩ := hs.named index
      (hs.wf.mem_heap_of_pending hmatch.2.1 hmatch.2.2.2) id hop
    exact ⟨timer, htimer, hstatus⟩
  next => exact absurd hop (by simp)

theorem Tracks.cancel_ended {s : State} (hs : Tracks s) (index token n : Nat) :
    ended (s.cancel index token).1.timers n =
      ended s.timers n + (s.cancel index token).2.toList.count n := by
  simp only [State.cancel]
  rw [ended_mark (fun id => by split <;> simp)]
  · cases hop : (s.registry.cancel index token).2.op with
    | none => simp
    | some id =>
        by_cases hid : id = n
        · simp [hid]
        · simp [hid]
  · intro id status hsome
    split at hsome
    next hop => exact hs.cancel_pending hop
    next => exact absurd hsome (by simp)

/-- A handle of a pending timer cancels it. -/
theorem Tracks.cancel_own {s : State} (hs : Tracks s) {n : Nat} {timer : Timer}
    (htimer : s.timers[n]? = some timer) (hstatus : timer.status = .pending)
    (hvalid : s.registry.NodesOk) :
    (s.cancel timer.index timer.token).2 = some n := by
  obtain ⟨hheap, hnode⟩ := hs.here n timer htimer hstatus
  have htoken := (hvalid timer.index).1
  rw [hnode] at htoken
  have hlt := hs.wf.bound _ (List.mem_append_left _ hheap)
  simp only [State.cancel]
  rw [TimerRegistry.cancel_eq, if_pos ⟨htoken, hlt, by rw [hnode], by rw [hnode]⟩, hnode]

theorem Tracks.processExpired_ended (algorithms : BinaryHeap.Algorithms Nat)
    {s : State} (hs : Tracks s) {clock : Nat → Int} (hclock : Monotone clock) (n : Nat) :
    ended (s.processExpired algorithms clock).1.timers n =
      ended s.timers n +
        ((s.processExpired algorithms clock).2.map Prod.fst).count n := by
  obtain ⟨fired, hrt⟩ := TimerRegistry.expireLoop_collected algorithms hclock
    s.registry.heap.length 0 s.registry hs.wf (Nat.le_refl _)
  have hnodup : ((s.processExpired algorithms clock).2.map Prod.fst).Nodup :=
    hs.ready_nodup hrt
  have hready : ∀ id, calledBack (s.processExpired algorithms clock).2 id = none ↔
      id ∉ (s.processExpired algorithms clock).2.map Prod.fst :=
    fun _ => calledBack_eq_none
  change ended (TimerExpiry.mark s.timers
    (calledBack (s.processExpired algorithms clock).2)) n = _
  rw [ended_mark (calledBack_ends _), hnodup.count]
  · congr 1
    by_cases hin : n ∈ (s.processExpired algorithms clock).2.map Prod.fst
    · have hsome := Option.ne_none_iff_isSome.mp (mt (hready n).mp (not_not.mpr hin))
      rw [if_pos hsome, if_pos hin]
    · rw [(hready n).mpr hin, if_neg hin]
      rfl
  · intro id status hsome
    have hin : id ∈ (s.processExpired algorithms clock).2.map Prod.fst := by
      by_contra hout
      rw [(hready id).mpr hout] at hsome
      exact absurd hsome (by simp)
    obtain ⟨timer, htimer, hstatus, _⟩ := (hs.mem_ready_iff hrt).mp hin
    exact ⟨timer, htimer, hstatus⟩

theorem addTimer_ended (algorithms : BinaryHeap.Algorithms Nat) (s : State)
    (expiry : Int) (n : Nat) :
    ended (s.addTimer algorithms expiry).1.timers n = ended s.timers n := by
  simp only [State.addTimer, ended]
  rcases Nat.lt_trichotomy n s.timers.length with hlt | rfl | hgt
  · rw [List.getElem?_append_left hlt]
  · rw [List.getElem?_concat_length, List.getElem?_eq_none (Nat.le_refl _)]
    rfl
  · rw [List.getElem?_eq_none (by simpa using Nat.succ_le_of_lt hgt),
      List.getElem?_eq_none hgt.le]

/-- Timers keep their expiry and their handle, and those that have ended stay so. -/
def Keeps (timers later : List Timer) : Prop :=
  ∀ (n : Nat) timer, timers[n]? = some timer →
    ∃ same, later[n]? = some same ∧ same.expiry = timer.expiry ∧
      same.index = timer.index ∧ same.token = timer.token ∧
      (timer.status ≠ .pending → same.status ≠ .pending)

theorem keeps_mark (timers : List Timer) {outcome : Nat → Option Status}
    (hends : ∀ id, outcome id ≠ some .pending) :
    Keeps timers (mark timers outcome) := by
  intro n timer htimer
  refine ⟨_, by rw [mark_getElem?, htimer]; rfl, ?_⟩
  cases hcase : outcome n with
  | none => exact ⟨rfl, rfl, rfl, id⟩
  | some status =>
      exact ⟨rfl, rfl, rfl, fun _ heq => hends n (hcase.trans (by rw [← heq]))⟩

theorem keeps_append (timers more : List Timer) : Keeps timers (timers ++ more) := by
  intro n timer htimer
  refine ⟨timer, ?_, rfl, rfl, rfl, id⟩
  rwa [List.getElem?_append_left (List.getElem?_eq_some_iff.mp htimer).1]

theorem cancel_keeps (s : State) (index token : Nat) :
    Keeps s.timers (s.cancel index token).1.timers :=
  keeps_mark _ fun id => by split <;> simp

theorem processExpired_keeps (algorithms : BinaryHeap.Algorithms Nat) (s : State)
    (clock : Nat → Int) : Keeps s.timers (s.processExpired algorithms clock).1.timers :=
  keeps_mark _ (calledBack_ends _)

end TimerExpiry

namespace SteadyTimer

/-! ### The timer and its calls -/

/-- An `event_handle` of a timer; `number` says which registration it was made for
and is no part of the value. -/
structure Handle where
  index : Nat
  token : Nat
  number : Nat
deriving DecidableEq, Repr

/-- A call on the timer that has not returned: an `async_wait` between the reading of
`expiry_` and `register_timer`, or a function that has released the mutex and still
has to cancel the handle it took. -/
inductive Call where
  | waiting (snapshot : Int)
  | cancelling (h : Handle)
deriving DecidableEq, Repr

/-- How the operation of a wait was called back. -/
inductive Completion where
  | expired
  | aborted
deriving DecidableEq, Repr

/-- The `shared_state` of the timer, the calls on it, the cancellations posted to the
reactor, and the registry.  The other fields record the run: the registrations of
this timer, those whose handle was taken out, the cancellations executed, the
operations called back, and how many waits found the timer closed. -/
structure State where
  expiry : Int
  closed : Bool := false
  handle : Option Handle := none
  calls : List Call := []
  posted : List Handle := []
  timers : TimerExpiry.State := {}
  mine : List Nat := []
  dropped : List Nat := []
  executed : List Nat := []
  completions : List (Nat × Completion) := []
  refused : Nat := 0
deriving DecidableEq, Repr

inductive Action where
  | readExpiry
  | registerTimer (call : Nat)
  | expiresAt (expiry : Int)
  | cancel
  | close
  | cancelHandle (call : Nat) (onReactor : Bool)
  | runPosted (task : Nat)
  | stopWait (number : Nat)
  | processExpired (clock : Nat → Int) (hclock : Monotone clock)
  | addOther (expiry : Int)
  | cancelOther (index token : Nat)

/-- The exchange of `handle` under the mutex; the caller cancels what it got. -/
def State.takeHandle (s : State) : State :=
  { s with
    handle := none
    calls := s.calls ++ s.handle.toList.map .cancelling
    dropped := s.dropped ++ s.handle.toList.map Handle.number }

/-- `timers_.cancel` with the abort of what it returns. -/
def State.abortTimer (s : State) (index token : Nat) : State :=
  let (timers, op) := s.timers.cancel index token
  { s with
    timers
    completions := s.completions ++ op.toList.map fun id => (id, .aborted) }

/-- The task of `cancel_timer` on the reactor. -/
def State.execute (s : State) (h : Handle) : State :=
  { s.abortTimer h.index h.token with executed := s.executed ++ [h.number] }

section Machine

variable (algorithms : BinaryHeap.Algorithms Nat)

/-- The locked section of `register_timer` on an open timer. -/
def State.register (s : State) (snapshot : Int) : State :=
  let (timers, result) := s.timers.addTimer algorithms snapshot
  let h : Handle :=
    { index := result.index, token := result.token, number := s.timers.timers.length }
  { s.takeHandle with
    timers, handle := some h, mine := s.mine ++ [h.number] }

def step (s : State) : Action → Option State
  | .readExpiry => some { s with calls := s.calls ++ [.waiting s.expiry] }
  | .registerTimer call =>
      match s.calls[call]? with
      | some (.waiting snapshot) =>
          let s := { s with calls := s.calls.eraseIdx call }
          if s.closed then some { s with refused := s.refused + 1 }
          else some (s.register algorithms snapshot)
      | _ => none
  | .expiresAt expiry => some { s.takeHandle with expiry }
  | .cancel => some s.takeHandle
  | .close => some { s.takeHandle with closed := true }
  | .cancelHandle call onReactor =>
      match s.calls[call]? with
      | some (.cancelling h) =>
          let s := { s with calls := s.calls.eraseIdx call }
          -- `dispatch_reactor` runs the task at once on the reactor's own thread.
          if onReactor then some (s.execute h)
          else some { s with posted := s.posted ++ [h] }
      | _ => none
  | .runPosted task =>
      match s.posted[task]? with
      | some h => some ({ s with posted := s.posted.eraseIdx task }.execute h)
      | none => none
  | .stopWait number =>
      if number ∈ s.mine then
        match s.timers.timers[number]? with
        | some timer =>
            some { s with
              posted := s.posted ++ [⟨timer.index, timer.token, number⟩] }
        | none => none
      else none
  | .processExpired clock _ =>
      let (timers, ready) := s.timers.processExpired algorithms clock
      some { s with
        timers
        completions := s.completions ++ ready.map fun entry =>
          (entry.1, if entry.2 then .expired else .aborted) }
  | .addOther expiry =>
      some { s with timers := (s.timers.addTimer algorithms expiry).1 }
  | .cancelOther index token => some (s.abortTimer index token)

/-- A timer made for `expiry`, with its waits, the calls on it from any threads, the
reactor, and other users of the registry. -/
def machine (expiry : Int) : TransitionSystem State Action where
  start := { expiry }
  step := step algorithms

end Machine

/-- A registration of this timer whose operation is in the registry. -/
def State.Pending (s : State) (number : Nat) : Prop :=
  number ∈ s.mine ∧ ∃ i < s.timers.registry.nodes.length,
    (s.timers.registry.node i).op = some number ∧
      (s.timers.registry.node i).state = .pending

/-- A cancellation for this registration was executed or is in the queue. -/
def State.Cancelled (s : State) (number : Nat) : Prop :=
  number ∈ s.executed ∨ number ∈ s.posted.map Handle.number

/-! ### Where the handles are -/

/-- The handle a call still has to cancel. -/
def Call.handles : Call → List Handle
  | .waiting _ => []
  | .cancelling h => [h]

/-- The handles in the local variables of the calls. -/
def State.held (s : State) : List Handle := s.calls.flatMap Call.handles

/-- Every registration is in `handle`, in a call, in the queue, or its cancellation
was executed; those that are no longer in `handle` were taken out of it. -/
structure Placed (s : State) : Prop where
  mine : ∀ n ∈ s.mine, (∃ h, s.handle = some h ∧ h.number = n) ∨
    n ∈ s.held.map Handle.number ∨ s.Cancelled n
  shut : s.closed = true → s.handle = none
  dropped : ∀ n ∈ s.dropped, n ∈ s.held.map Handle.number ∨ s.Cancelled n

theorem placed_start (algorithms : BinaryHeap.Algorithms Nat) (expiry : Int) :
    Placed (machine algorithms expiry).start where
  mine := nofun
  shut := fun _ => rfl
  dropped := nofun

/-- Taking one call out of the list leaves the others. -/
theorem calls_perm {calls : List Call} {k : Nat} {call : Call}
    (hcall : calls[k]? = some call) : (call :: calls.eraseIdx k).Perm calls := by
  obtain ⟨hlt, rfl⟩ := List.getElem?_eq_some_iff.mp hcall
  exact List.getElem_cons_eraseIdx_perm hlt

theorem held_perm {s : State} {k : Nat} {call : Call}
    (hcall : s.calls[k]? = some call) :
    (call.handles ++ State.held { s with calls := s.calls.eraseIdx k }).Perm s.held :=
  (calls_perm hcall).flatMap_right Call.handles

theorem takeHandle_held (s : State) : s.takeHandle.held = s.held ++ s.handle.toList := by
  cases hhandle : s.handle <;>
    simp [State.held, State.takeHandle, hhandle, Call.handles]

/-- A call that carries no handle comes or goes. -/
theorem Placed.calls {s : State} (hs : Placed s) {calls : List Call}
    (hheld : (State.held { s with calls }).Perm s.held) : Placed { s with calls } where
  mine := fun n hn => by
    rw [(hheld.map Handle.number).mem_iff]
    exact hs.mine n hn
  shut := hs.shut
  dropped := fun n hn => by
    rw [(hheld.map Handle.number).mem_iff]
    exact hs.dropped n hn

theorem Placed.takeHandle {s : State} (hs : Placed s) : Placed s.takeHandle where
  mine := fun n hn => by
    rw [takeHandle_held, List.map_append, List.mem_append]
    rcases hs.mine n hn with ⟨h, hhandle, rfl⟩ | hheld | hcancelled
    · exact Or.inr (Or.inl (Or.inr (by simp [hhandle])))
    · exact Or.inr (Or.inl (Or.inl hheld))
    · exact Or.inr (Or.inr hcancelled)
  shut := fun _ => rfl
  dropped := fun n hn => by
    rw [takeHandle_held, List.map_append, List.mem_append]
    rcases List.mem_append.mp hn with hold | hnew
    · rcases hs.dropped n hold with hheld | hcancelled
      · exact Or.inl (Or.inl hheld)
      · exact Or.inr hcancelled
    · exact Or.inl (Or.inr hnew)

theorem Placed.register (algorithms : BinaryHeap.Algorithms Nat) {s : State}
    (hs : Placed s) (hopen : s.closed ≠ true) (snapshot : Int) :
    Placed (s.register algorithms snapshot) where
  mine := fun n hn => by
    rcases List.mem_append.mp hn with hold | hnew
    · rcases hs.takeHandle.mine n hold with ⟨h, hhandle, _⟩ | hrest
      · exact absurd hhandle (by simp [State.takeHandle])
      · exact Or.inr hrest
    · exact Or.inl ⟨_, rfl, (List.mem_singleton.mp hnew).symm⟩
  shut := fun hclosed => absurd hclosed hopen
  dropped := hs.takeHandle.dropped

/-- A handle goes from a call to the reactor. -/
theorem Placed.handOver {s : State} (hs : Placed s) {k : Nat} {h : Handle}
    (hcall : s.calls[k]? = some (.cancelling h)) {t : State}
    (hheld : t.held = State.held { s with calls := s.calls.eraseIdx k })
    (hhandle : t.handle = s.handle) (hclosed : t.closed = s.closed)
    (hmine : t.mine = s.mine) (hdropped : t.dropped = s.dropped)
    (hnew : t.Cancelled h.number)
    (hkeep : ∀ n, s.Cancelled n → t.Cancelled n) : Placed t := by
  have hmove : ∀ n, n ∈ s.held.map Handle.number ∨ s.Cancelled n →
      n ∈ t.held.map Handle.number ∨ t.Cancelled n := by
    rintro n (hin | hcancelled)
    · rw [← ((held_perm hcall).map Handle.number).mem_iff, List.map_append,
        List.mem_append] at hin
      rcases hin with hthis | hother
      · obtain rfl : n = h.number := by simpa [Call.handles] using hthis
        exact Or.inr hnew
      · exact Or.inl (hheld ▸ hother)
    · exact Or.inr (hkeep n hcancelled)
  exact
    { mine := fun n hn => by
        rw [hhandle]
        rcases hs.mine n (hmine ▸ hn) with hin | hrest
        · exact Or.inl hin
        · exact Or.inr (hmove n hrest)
      shut := fun hshut => by
        rw [hhandle]
        exact hs.shut (hclosed ▸ hshut)
      dropped := fun n hn => hmove n (hs.dropped n (hdropped ▸ hn)) }

/-- Nothing moves but the cancellations, of which none is lost. -/
theorem Placed.cancelled {s t : State} (hs : Placed s) (hcalls : t.calls = s.calls)
    (hhandle : t.handle = s.handle) (hclosed : t.closed = s.closed)
    (hmine : t.mine = s.mine) (hdropped : t.dropped = s.dropped)
    (hkeep : ∀ n, s.Cancelled n → t.Cancelled n) : Placed t := by
  have hheld : t.held = s.held := congrArg (List.flatMap Call.handles) hcalls
  exact
    { mine := fun n hn => by
        rw [hhandle, hheld]
        rcases hs.mine n (hmine ▸ hn) with hin | hin | hcancelled
        · exact Or.inl hin
        · exact Or.inr (Or.inl hin)
        · exact Or.inr (Or.inr (hkeep n hcancelled))
      shut := fun hshut => by
        rw [hhandle]
        exact hs.shut (hclosed ▸ hshut)
      dropped := fun n hn => by
        rw [hheld]
        rcases hs.dropped n (hdropped ▸ hn) with hin | hcancelled
        · exact Or.inl hin
        · exact Or.inr (hkeep n hcancelled) }

theorem execute_cancelled (s : State) (h : Handle) (n : Nat) :
    (s.execute h).Cancelled n ↔ s.Cancelled n ∨ n = h.number := by
  simp only [State.Cancelled, State.execute, State.abortTimer, List.mem_append,
    List.mem_singleton]
  tauto

theorem posted_cancelled {s : State} {k : Nat} {h : Handle}
    (hposted : s.posted[k]? = some h) (n : Nat) :
    s.Cancelled n ↔
      State.Cancelled { s with posted := s.posted.eraseIdx k } n ∨ n = h.number := by
  obtain ⟨hlt, rfl⟩ := List.getElem?_eq_some_iff.mp hposted
  have hperm := (List.getElem_cons_eraseIdx_perm hlt).map Handle.number
  simp only [State.Cancelled]
  rw [← hperm.mem_iff, List.map_cons, List.mem_cons]
  tauto

section Steps

variable {algorithms : BinaryHeap.Algorithms Nat} {s t : State}

theorem registerTimer_placed (hs : Placed s) {call : Nat}
    (hstep : step algorithms s (.registerTimer call) = some t) : Placed t := by
  simp only [step] at hstep
  split at hstep
  next snapshot hcall =>
    have hcalls := hs.calls (held_perm hcall)
    split at hstep
    next =>
      obtain rfl := Option.some.inj hstep
      exact ⟨hcalls.mine, hcalls.shut, hcalls.dropped⟩
    next hopen =>
      obtain rfl := Option.some.inj hstep
      exact hcalls.register algorithms hopen snapshot
  next => nomatch hstep

theorem cancelHandle_placed (hs : Placed s) {call : Nat} {onReactor : Bool}
    (hstep : step algorithms s (.cancelHandle call onReactor) = some t) : Placed t := by
  simp only [step] at hstep
  split at hstep
  next h hcall =>
    split at hstep
    next =>
      obtain rfl := Option.some.inj hstep
      exact hs.handOver hcall rfl rfl rfl rfl rfl
        ((execute_cancelled _ h _).mpr (Or.inr rfl))
        fun n hn => (execute_cancelled _ h n).mpr (Or.inl hn)
    next =>
      obtain rfl := Option.some.inj hstep
      refine hs.handOver hcall rfl rfl rfl rfl rfl (Or.inr (by simp)) fun n hn => ?_
      rcases hn with hexecuted | hposted
      · exact Or.inl hexecuted
      · exact Or.inr (by rw [List.map_append]; exact List.mem_append_left _ hposted)
  next => nomatch hstep

theorem step_placed (hs : Placed s) {a : Action}
    (hstep : step algorithms s a = some t) : Placed t := by
  cases a with
  | readExpiry =>
      obtain rfl := Option.some.inj hstep
      exact hs.calls (by simp [State.held, Call.handles])
  | registerTimer call => exact registerTimer_placed hs hstep
  | expiresAt expiry =>
      obtain rfl := Option.some.inj hstep
      exact ⟨hs.takeHandle.mine, hs.takeHandle.shut, hs.takeHandle.dropped⟩
  | cancel =>
      obtain rfl := Option.some.inj hstep
      exact hs.takeHandle
  | close =>
      obtain rfl := Option.some.inj hstep
      exact ⟨hs.takeHandle.mine, fun _ => rfl, hs.takeHandle.dropped⟩
  | cancelHandle call onReactor => exact cancelHandle_placed hs hstep
  | runPosted task =>
      simp only [step] at hstep
      split at hstep
      next h hposted =>
        obtain rfl := Option.some.inj hstep
        refine hs.cancelled rfl rfl rfl rfl rfl fun n hn => ?_
        exact (execute_cancelled _ h n).mpr ((posted_cancelled hposted n).mp hn)
      next => nomatch hstep
  | stopWait number =>
      simp only [step] at hstep
      split at hstep
      next =>
        split at hstep
        next =>
          obtain rfl := Option.some.inj hstep
          refine hs.cancelled rfl rfl rfl rfl rfl fun n hn => ?_
          rcases hn with hexecuted | hposted
          · exact Or.inl hexecuted
          · exact Or.inr (by rw [List.map_append]; exact List.mem_append_left _ hposted)
        next => nomatch hstep
      next => nomatch hstep
  | processExpired clock _ =>
      obtain rfl := Option.some.inj hstep
      exact hs.cancelled rfl rfl rfl rfl rfl fun _ hn => hn
  | addOther expiry =>
      obtain rfl := Option.some.inj hstep
      exact hs.cancelled rfl rfl rfl rfl rfl fun _ hn => hn
  | cancelOther index token =>
      obtain rfl := Option.some.inj hstep
      exact hs.cancelled rfl rfl rfl rfl rfl fun _ hn => hn

end Steps

/-! ### The expiry a wait is registered for -/

/-- Where no call is in progress, a pending registration that nobody has cancelled is
for the current expiry. -/
def WaitsForExpiry (s : State) : Prop :=
  s.calls = [] → ∀ n, s.Pending n → ¬ s.Cancelled n →
    ∃ timer, s.timers.timers[n]? = some timer ∧ timer.expiry = s.expiry

/-- `register_timer` is reached while `expiry_` still is what the wait has read, or
after the timer was closed. -/
def SnapshotCurrent (s : State) : Action → Prop
  | .registerTimer call =>
      s.closed = true ∨ s.calls[call]?.all fun c => c = .waiting s.expiry
  | _ => True

instance (s : State) : ∀ a, Decidable (SnapshotCurrent s a)
  | .registerTimer _ => inferInstanceAs (Decidable (_ ∨ _))
  | .readExpiry | .expiresAt _ | .cancel | .close | .cancelHandle _ _ | .runPosted _
  | .stopWait _ | .processExpired _ _ | .addOther _ | .cancelOther _ _ =>
      .isTrue trivial

/-- The registration in `handle` is for the current expiry. -/
def Current (s : State) : Prop :=
  ∀ h, s.handle = some h →
    ∃ timer, s.timers.timers[h.number]? = some timer ∧ timer.expiry = s.expiry

theorem Current.keeps {s t : State} (hs : Current s) (hhandle : t.handle = s.handle)
    (hexpiry : t.expiry = s.expiry)
    (hkeeps : TimerExpiry.Keeps s.timers.timers t.timers.timers) : Current t := by
  intro h hh
  obtain ⟨timer, htimer, hcurrent⟩ := hs h (hhandle ▸ hh)
  obtain ⟨same, hsame, hkept, _⟩ := hkeeps h.number timer htimer
  exact ⟨same, hsame, hkept.trans (hcurrent.trans hexpiry.symm)⟩

theorem current_of_none {s : State} (hnone : s.handle = none) : Current s := by
  intro h hh
  rw [hnone] at hh
  exact absurd hh (by simp)

theorem current_start (algorithms : BinaryHeap.Algorithms Nat) (expiry : Int) :
    Current (machine algorithms expiry).start :=
  current_of_none rfl

theorem keeps_refl (timers : List TimerExpiry.Timer) :
    TimerExpiry.Keeps timers timers :=
  fun _ timer htimer => ⟨timer, htimer, rfl, rfl, rfl, id⟩

section Steps

variable {algorithms : BinaryHeap.Algorithms Nat} {s t : State}

theorem step_current (hs : Current s) {a : Action} (hsnapshot : SnapshotCurrent s a)
    (hstep : step algorithms s a = some t) : Current t := by
  cases a with
  | readExpiry =>
      obtain rfl := Option.some.inj hstep
      exact hs.keeps rfl rfl (keeps_refl _)
  | registerTimer call =>
      simp only [step] at hstep
      split at hstep
      next snapshot hcall =>
        split at hstep
        next =>
          obtain rfl := Option.some.inj hstep
          exact hs.keeps rfl rfl (keeps_refl _)
        next hopen =>
          obtain rfl := Option.some.inj hstep
          -- The wait registers for what it has read, and that is the expiry.
          obtain rfl : snapshot = s.expiry := by
            rcases hsnapshot with hclosed | hsame
            · exact absurd hclosed hopen
            · simpa [hcall] using hsame
          intro h hh
          obtain rfl := Option.some.inj hh
          exact ⟨_, List.getElem?_concat_length, rfl⟩
      next => nomatch hstep
  | expiresAt expiry => exact Option.some.inj hstep ▸ current_of_none rfl
  | cancel => exact Option.some.inj hstep ▸ current_of_none rfl
  | close => exact Option.some.inj hstep ▸ current_of_none rfl
  | cancelHandle call onReactor =>
      simp only [step] at hstep
      split at hstep
      next =>
        split at hstep
        next =>
          obtain rfl := Option.some.inj hstep
          exact hs.keeps rfl rfl (TimerExpiry.cancel_keeps _ _ _)
        next =>
          obtain rfl := Option.some.inj hstep
          exact hs.keeps rfl rfl (keeps_refl _)
      next => nomatch hstep
  | runPosted task =>
      simp only [step] at hstep
      split at hstep
      next =>
        obtain rfl := Option.some.inj hstep
        exact hs.keeps rfl rfl (TimerExpiry.cancel_keeps _ _ _)
      next => nomatch hstep
  | stopWait number =>
      simp only [step] at hstep
      split at hstep
      next =>
        split at hstep
        next =>
          obtain rfl := Option.some.inj hstep
          exact hs.keeps rfl rfl (keeps_refl _)
        next => nomatch hstep
      next => nomatch hstep
  | processExpired clock _ =>
      obtain rfl := Option.some.inj hstep
      exact hs.keeps rfl rfl (TimerExpiry.processExpired_keeps _ _ _)
  | addOther expiry =>
      obtain rfl := Option.some.inj hstep
      exact hs.keeps rfl rfl (TimerExpiry.keeps_append _ _)
  | cancelOther index token =>
      obtain rfl := Option.some.inj hstep
      exact hs.keeps rfl rfl (TimerExpiry.cancel_keeps _ _ _)

end Steps

/-- As long as no `expires_at` falls between the reading of the expiry and the
registration, every live wait is for the current expiry. -/
theorem waitsForExpiry_of_snapshotCurrent (algorithms : BinaryHeap.Algorithms Nat)
    (expiry : Int) {s : State}
    (hs : (machine algorithms expiry).ReachableUnder SnapshotCurrent s) :
    WaitsForExpiry s := by
  have hplaced : Placed s := hs.invariant (placed_start algorithms expiry)
    fun _ _ _ hinv _ hstep => step_placed hinv hstep
  have hcurrent : Current s := hs.invariant (current_start algorithms expiry)
    fun _ _ _ hinv hsnapshot hstep => step_current hinv hsnapshot hstep
  intro hcalls n hpending hlive
  rcases hplaced.mine n hpending.1 with ⟨h, hhandle, rfl⟩ | hheld | hcancelled
  · exact hcurrent h hhandle
  · simp [State.held, hcalls] at hheld
  · exact absurd hcancelled hlive

/-- The expiry of a timer with a pending wait is moved, and the next wait registers
for it. -/
theorem waitsForExpiry_secondWait :
    ∃ s, (machine (BinaryHeap.sorted Nat) 5).ReachableUnder SnapshotCurrent s ∧
      (WaitsForExpiry s ∧ s.expiry = 7 ∧ s.handle.map Handle.number = some 1 ∧
        s.completions = [(0, .aborted)]) := by
  obtain ⟨s, hs, hcheck⟩ :=
    (machine (BinaryHeap.sorted Nat) 5).exists_reachableUnder_of_execUnder
      SnapshotCurrent
      [.readExpiry, .registerTimer 0, .expiresAt 7, .cancelHandle 0 false, .readExpiry,
        .registerTimer 0, .runPosted 0]
      (fun s => decide (s.expiry = 7 ∧ s.handle.map Handle.number = some 1 ∧
        s.completions = [(0, .aborted)]))
      (by decide)
  exact ⟨s, hs, waitsForExpiry_of_snapshotCurrent _ _ hs, of_decide_eq_true hcheck⟩

/-- The expiry is moved from `5` to `7` after the wait has read it and before it
registers; the wait stays registered for `5`. -/
theorem not_waitsForExpiry_movedExpiry :
    ¬ ∀ s, (machine (BinaryHeap.sorted Nat) 5).Reachable s → WaitsForExpiry s := by
  intro hall
  obtain ⟨s, hs, hcheck⟩ :=
    (machine (BinaryHeap.sorted Nat) 5).exists_reachable_of_exec
      [.readExpiry, .expiresAt 7, .registerTimer 0]
      (fun s => decide (s.calls = [] ∧ s.expiry = 7 ∧ s.mine = [0] ∧
        s.executed = [] ∧ s.posted = [] ∧
        s.timers.registry.nodes = [⟨5, some 0, 1, .pending⟩] ∧
        s.timers.timers = [⟨5, 0, 1, .pending⟩]))
      (by decide)
  obtain ⟨hcalls, hexpiry, hmine, hexecuted, hposted, hnodes, htimers⟩ :=
    of_decide_eq_true hcheck
  have hpending : s.Pending 0 := by
    refine ⟨by simp [hmine], 0, by simp [hnodes], ?_⟩
    simp [TimerRegistry.node, hnodes]
  obtain ⟨timer, htimer, hsame⟩ := hall s hs hcalls 0 hpending
    (by simp [State.Cancelled, hexecuted, hposted])
  rw [htimers] at htimer
  obtain rfl := Option.some.inj htimer
  rw [hexpiry] at hsame
  exact absurd hsame (by decide)

/-! ### One live wait -/

/-- At most one wait is live: with no call in progress every other pending
registration has its cancellation executed or queued, and after `close` all of them
have, with no registration to come; no operation is called back twice, and one whose
handle was taken out is called back once its cancellation has left the queue. -/
structure OneLiveWait (algorithms : BinaryHeap.Algorithms Nat) (s : State) :
    Prop where
  superseded : s.calls = [] → ∀ n, s.Pending n →
    (∃ h, s.handle = some h ∧ h.number = n) ∨ s.Cancelled n
  closed : s.calls = [] → s.closed = true → ∀ n, s.Pending n → s.Cancelled n
  last : s.closed = true → ∀ word t,
    (machine algorithms s.expiry).exec s word = some t → t.mine = s.mine
  atMostOnce : ∀ n ∈ s.mine, (s.completions.map Prod.fst).count n ≤ 1
  exactlyOnce : s.calls = [] → ∀ n ∈ s.dropped, n ∉ s.posted.map Handle.number →
    (s.completions.map Prod.fst).count n = 1

/-- `add_timer` is called only when it can name a node. -/
def Room (s : State) : Action → Prop
  | .registerTimer _ => s.closed = true ∨ s.timers.registry.hasRoom = true
  | .addOther _ => s.timers.registry.hasRoom = true
  | _ => True

instance (s : State) : ∀ a, Decidable (Room s a)
  | .registerTimer _ => inferInstanceAs (Decidable (_ ∨ _))
  | .addOther _ => inferInstanceAs (Decidable (_ = true))
  | .readExpiry | .expiresAt _ | .cancel | .close | .cancelHandle _ _ | .runPosted _
  | .stopWait _ | .processExpired _ _ | .cancelOther _ _ => .isTrue trivial

/-- A handle that is on its way. -/
def State.Carries (s : State) (h : Handle) : Prop :=
  s.handle = some h ∨ h ∈ s.held ∨ h ∈ s.posted

/-- The handle is the one that `add_timer` has returned for its registration. -/
def Genuine (timers : List TimerExpiry.Timer) (h : Handle) : Prop :=
  ∃ timer, timers[h.number]? = some timer ∧ timer.index = h.index ∧
    timer.token = h.token

theorem Genuine.keeps {timers later : List TimerExpiry.Timer} {h : Handle}
    (hh : Genuine timers h) (hkeeps : TimerExpiry.Keeps timers later) :
    Genuine later h := by
  obtain ⟨timer, htimer, hindex, htoken⟩ := hh
  obtain ⟨same, hsame, _, hindex', htoken', _⟩ := hkeeps _ timer htimer
  exact ⟨same, hsame, hindex'.trans hindex, htoken'.trans htoken⟩

/-- The registry against the callbacks: an operation was called back once if its
timer has ended and not at all before, and a timer has ended when its cancellation
was executed. -/
structure Exact (s : State) : Prop where
  tracks : TimerExpiry.Tracks s.timers
  valid : s.timers.registry.NodesOk
  genuine : ∀ h, s.Carries h → Genuine s.timers.timers h
  recorded : ∀ n, (s.completions.map Prod.fst).count n =
    TimerExpiry.ended s.timers.timers n
  executed : ∀ n ∈ s.executed, TimerExpiry.ended s.timers.timers n = 1
  dropped : ∀ n ∈ s.dropped, ∃ timer, s.timers.timers[n]? = some timer

theorem exact_start (algorithms : BinaryHeap.Algorithms Nat) (expiry : Int) :
    Exact (machine algorithms expiry).start where
  tracks := TimerExpiry.start_tracks algorithms
  valid := TimerRegistry.nodesOk_empty
  genuine := fun h hh => by simp [State.Carries, State.held, machine] at hh
  recorded := fun _ => rfl
  executed := nofun
  dropped := nofun

theorem ended_keeps {timers later : List TimerExpiry.Timer}
    (hkeeps : TimerExpiry.Keeps timers later) {n : Nat}
    (hended : TimerExpiry.ended timers n = 1) : TimerExpiry.ended later n = 1 := by
  unfold TimerExpiry.ended at hended ⊢
  cases htimer : timers[n]? with
  | none => simp [htimer] at hended
  | some timer =>
      obtain ⟨same, hsame, _, _, _, hstatus⟩ := hkeeps n timer htimer
      have hne : timer.status ≠ .pending := by
        intro hpending
        simp [htimer, hpending] at hended
      simp [hsame, hstatus hne]

/-- Handles move, and the registry and the callbacks do not. -/
theorem Exact.move {s t : State} (hs : Exact s) (htimers : t.timers = s.timers)
    (hcompletions : t.completions = s.completions) (hexecuted : t.executed = s.executed)
    (hcarries : ∀ h, t.Carries h → Genuine s.timers.timers h)
    (hdropped : ∀ n ∈ t.dropped, n ∈ s.dropped ∨ ∃ h, s.Carries h ∧ h.number = n) :
    Exact t where
  tracks := htimers ▸ hs.tracks
  valid := htimers ▸ hs.valid
  genuine := fun h hh => htimers ▸ hcarries h hh
  recorded := fun n => by
    rw [hcompletions, htimers]
    exact hs.recorded n
  executed := fun n hn => htimers ▸ hs.executed n (hexecuted ▸ hn)
  dropped := fun n hn => by
    rw [htimers]
    rcases hdropped n hn with hold | ⟨h, hh, rfl⟩
    · exact hs.dropped n hold
    · obtain ⟨timer, htimer, _⟩ := hs.genuine h hh
      exact ⟨timer, htimer⟩

/-- The registry makes a step and its operations are called back. -/
theorem Exact.timers {s : State} (hs : Exact s) {timers : TimerExpiry.State}
    {more : List (Nat × Completion)} (htracks : TimerExpiry.Tracks timers)
    (hvalid : timers.registry.NodesOk)
    (hkeeps : TimerExpiry.Keeps s.timers.timers timers.timers)
    (hended : ∀ n, TimerExpiry.ended timers.timers n =
      TimerExpiry.ended s.timers.timers n + (more.map Prod.fst).count n) :
    Exact { s with timers, completions := s.completions ++ more } where
  tracks := htracks
  valid := hvalid
  genuine := fun h hh => (hs.genuine h hh).keeps hkeeps
  recorded := fun n => by
    rw [List.map_append, List.count_append, hs.recorded, hended]
  executed := fun n hn => ended_keeps hkeeps (hs.executed n hn)
  dropped := fun n hn => by
    obtain ⟨timer, htimer⟩ := hs.dropped n hn
    obtain ⟨same, hsame, _⟩ := hkeeps n timer htimer
    exact ⟨same, hsame⟩

theorem Exact.abortTimer {s : State} (hs : Exact s) (index token : Nat) :
    Exact (s.abortTimer index token) := by
  have hended : ∀ n, TimerExpiry.ended (s.timers.cancel index token).1.timers n =
      TimerExpiry.ended s.timers.timers n + (((s.timers.cancel index token).2.toList.map
        fun id => (id, Completion.aborted)).map Prod.fst).count n := by
    intro n
    rw [hs.tracks.cancel_ended]
    simp [Function.comp_def]
  exact hs.timers (TimerExpiry.cancel_tracks hs.tracks index token)
    (TimerRegistry.cancel_onlyRemoves hs.valid index token).2
    (TimerExpiry.cancel_keeps _ _ _) hended

/-- Once a genuine handle was cancelled its timer has ended. -/
theorem Exact.execute {s : State} (hs : Exact s) {h : Handle}
    (hgenuine : Genuine s.timers.timers h) : Exact (s.execute h) := by
  have habort := hs.abortTimer h.index h.token
  have hended : TimerExpiry.ended (s.timers.cancel h.index h.token).1.timers
      h.number = 1 := by
    obtain ⟨timer, htimer, hindex, htoken⟩ := hgenuine
    by_cases hstatus : timer.status = .pending
    · rw [hs.tracks.cancel_ended, ← hindex, ← htoken,
        hs.tracks.cancel_own htimer hstatus hs.valid]
      simp [TimerExpiry.ended, htimer, hstatus]
    · refine ended_keeps (TimerExpiry.cancel_keeps _ _ _) ?_
      simp [TimerExpiry.ended, htimer, hstatus]
  exact
    { tracks := habort.tracks
      valid := habort.valid
      genuine := habort.genuine
      recorded := habort.recorded
      executed := fun n hn => by
        rcases List.mem_append.mp hn with hold | hnew
        · exact habort.executed n hold
        · rw [List.mem_singleton.mp hnew]
          exact hended
      dropped := habort.dropped }

theorem takeHandle_carries {s : State} {h : Handle} (hh : s.takeHandle.Carries h) :
    s.Carries h := by
  rcases hh with hhandle | hheld | hposted
  · exact absurd hhandle (by simp [State.takeHandle])
  · rw [takeHandle_held] at hheld
    rcases List.mem_append.mp hheld with hold | hnew
    · exact Or.inr (Or.inl hold)
    · exact Or.inl (Option.mem_toList.mp hnew)
  · exact Or.inr (Or.inr hposted)

theorem Exact.takeHandle {s : State} (hs : Exact s) : Exact s.takeHandle := by
  refine hs.move rfl rfl rfl (fun h hh => hs.genuine h (takeHandle_carries hh))
    fun n hn => ?_
  rcases List.mem_append.mp hn with hold | hnew
  · exact Or.inl hold
  · obtain ⟨h, hh, rfl⟩ := List.mem_map.mp hnew
    exact Or.inr ⟨h, Or.inl (Option.mem_toList.mp hh), rfl⟩

section Steps

variable {algorithms : BinaryHeap.Algorithms Nat} {s t : State}

theorem Exact.addTimer (hs : Exact s) (hroom : s.timers.registry.hasRoom = true)
    (expiry : Int) :
    Exact { s with timers := (s.timers.addTimer algorithms expiry).1 } := by
  have hended : ∀ n, TimerExpiry.ended (s.timers.addTimer algorithms expiry).1.timers n =
      TimerExpiry.ended s.timers.timers n +
        (([] : List (Nat × Completion)).map Prod.fst).count n :=
    fun n => TimerExpiry.addTimer_ended algorithms s.timers expiry n
  have hadded := hs.timers
    (TimerExpiry.addTimer_tracks algorithms hs.tracks expiry hroom)
    (TimerRegistry.addTimer_nodesOk algorithms hs.valid _ _)
    (TimerExpiry.keeps_append _ _) hended
  rwa [List.append_nil] at hadded

theorem Exact.register (hs : Exact s) (hroom : s.timers.registry.hasRoom = true)
    (snapshot : Int) : Exact (s.register algorithms snapshot) := by
  have hadded : Exact { s.takeHandle with
      timers := (s.timers.addTimer algorithms snapshot).1 } :=
    hs.takeHandle.addTimer hroom snapshot
  refine hadded.move rfl rfl rfl (fun h hh => ?_) fun n hn => Or.inl hn
  rcases hh with hhandle | hheld | hposted
  · obtain rfl := Option.some.inj hhandle
    exact ⟨_, List.getElem?_concat_length, rfl, rfl⟩
  · exact hadded.genuine h (Or.inr (Or.inl hheld))
  · exact hadded.genuine h (Or.inr (Or.inr hposted))

/-- The calls that are left carry no new handles. -/
theorem Exact.eraseCall (hs : Exact s) {k : Nat} {call : Call}
    (hcall : s.calls[k]? = some call) :
    Exact { s with calls := s.calls.eraseIdx k } := by
  refine hs.move rfl rfl rfl (fun h hh => hs.genuine h ?_) fun n hn => Or.inl hn
  rcases hh with hhandle | hheld | hposted
  · exact Or.inl hhandle
  · exact Or.inr (Or.inl ((held_perm hcall).mem_iff.mp (List.mem_append_right _ hheld)))
  · exact Or.inr (Or.inr hposted)

theorem call_carries {k : Nat} {h : Handle}
    (hcall : s.calls[k]? = some (.cancelling h)) : s.Carries h :=
  Or.inr (Or.inl ((held_perm hcall).mem_iff.mp
    (List.mem_append_left _ List.mem_cons_self)))

/-- A genuine handle joins the queue. -/
theorem Exact.post (hs : Exact s) {h : Handle} (hgenuine : Genuine s.timers.timers h) :
    Exact { s with posted := s.posted ++ [h] } := by
  refine hs.move rfl rfl rfl (fun other hother => ?_) fun n hn => Or.inl hn
  rcases hother with hhandle | hheld | hposted
  · exact hs.genuine other (Or.inl hhandle)
  · exact hs.genuine other (Or.inr (Or.inl hheld))
  · rcases List.mem_append.mp hposted with hold | hnew
    · exact hs.genuine other (Or.inr (Or.inr hold))
    · rw [List.mem_singleton.mp hnew]
      exact hgenuine

theorem Exact.processExpired (hs : Exact s) {clock : Nat → Int}
    (hclock : Monotone clock) :
    Exact { s with
      timers := (s.timers.processExpired algorithms clock).1
      completions := s.completions ++
        (s.timers.processExpired algorithms clock).2.map fun entry =>
          (entry.1, if entry.2 then .expired else .aborted) } := by
  have hended : ∀ n,
      TimerExpiry.ended (s.timers.processExpired algorithms clock).1.timers n =
        TimerExpiry.ended s.timers.timers n +
          (((s.timers.processExpired algorithms clock).2.map fun entry =>
            (entry.1, if entry.2 then Completion.expired else .aborted)).map
              Prod.fst).count n := by
    intro n
    rw [hs.tracks.processExpired_ended algorithms hclock]
    simp [Function.comp_def]
  exact hs.timers (TimerExpiry.processExpired_tracks algorithms hs.tracks hclock)
    (TimerRegistry.processExpired_onlyRemoves algorithms hs.valid clock).2
    (TimerExpiry.processExpired_keeps _ _ _) hended

theorem step_exact (hs : Exact s) {a : Action} (hroom : Room s a)
    (hstep : step algorithms s a = some t) : Exact t := by
  cases a with
  | readExpiry =>
      obtain rfl := Option.some.inj hstep
      refine hs.move rfl rfl rfl (fun h hh => hs.genuine h ?_) fun n hn => Or.inl hn
      simpa [State.Carries, State.held, Call.handles] using hh
  | registerTimer call =>
      simp only [step] at hstep
      split at hstep
      next snapshot hcall =>
        have hcalls := hs.eraseCall hcall
        split at hstep
        next =>
          obtain rfl := Option.some.inj hstep
          exact hcalls.move rfl rfl rfl hcalls.genuine fun n hn => Or.inl hn
        next hopen =>
          obtain rfl := Option.some.inj hstep
          exact hcalls.register (hroom.resolve_left hopen) snapshot
      next => nomatch hstep
  | expiresAt expiry =>
      obtain rfl := Option.some.inj hstep
      exact hs.takeHandle.move rfl rfl rfl hs.takeHandle.genuine fun n hn => Or.inl hn
  | cancel => exact Option.some.inj hstep ▸ hs.takeHandle
  | close =>
      obtain rfl := Option.some.inj hstep
      exact hs.takeHandle.move rfl rfl rfl hs.takeHandle.genuine fun n hn => Or.inl hn
  | cancelHandle call onReactor =>
      simp only [step] at hstep
      split at hstep
      next h hcall =>
        have hgenuine := hs.genuine h (call_carries hcall)
        have hcalls := hs.eraseCall hcall
        split at hstep
        next => exact Option.some.inj hstep ▸ hcalls.execute hgenuine
        next => exact Option.some.inj hstep ▸ hcalls.post hgenuine
      next => nomatch hstep
  | runPosted task =>
      simp only [step] at hstep
      split at hstep
      next h hposted =>
        have hgenuine := hs.genuine h (Or.inr (Or.inr (List.mem_of_getElem? hposted)))
        have hrest : Exact { s with posted := s.posted.eraseIdx task } := by
          refine hs.move rfl rfl rfl (fun other hother => hs.genuine other ?_)
            fun n hn => Or.inl hn
          rcases hother with hhandle | hheld | hleft
          · exact Or.inl hhandle
          · exact Or.inr (Or.inl hheld)
          · exact Or.inr (Or.inr (List.mem_of_mem_eraseIdx hleft))
        exact Option.some.inj hstep ▸ hrest.execute hgenuine
      next => nomatch hstep
  | stopWait number =>
      simp only [step] at hstep
      split at hstep
      next =>
        split at hstep
        next timer htimer =>
          exact Option.some.inj hstep ▸ hs.post ⟨timer, htimer, rfl, rfl⟩
        next => nomatch hstep
      next => nomatch hstep
  | processExpired clock hclock =>
      exact Option.some.inj hstep ▸ hs.processExpired hclock
  | addOther expiry => exact Option.some.inj hstep ▸ hs.addTimer hroom expiry
  | cancelOther index token => exact Option.some.inj hstep ▸ hs.abortTimer index token

/-- A closed timer stays closed and registers nothing. -/
theorem step_closed {a : Action} (hclosed : s.closed = true)
    (hstep : step algorithms s a = some t) : t.closed = true ∧ t.mine = s.mine := by
  cases a with
  | readExpiry | expiresAt _ | cancel | processExpired _ _ | addOther _
  | cancelOther _ _ =>
      obtain rfl := Option.some.inj hstep
      exact ⟨hclosed, rfl⟩
  | close =>
      obtain rfl := Option.some.inj hstep
      exact ⟨rfl, rfl⟩
  | registerTimer call =>
      simp only [step] at hstep
      split at hstep
      next =>
        rw [if_pos hclosed] at hstep
        obtain rfl := Option.some.inj hstep
        exact ⟨hclosed, rfl⟩
      next => nomatch hstep
  | cancelHandle call onReactor =>
      simp only [step] at hstep
      split at hstep
      next =>
        split at hstep <;>
        · obtain rfl := Option.some.inj hstep
          exact ⟨hclosed, rfl⟩
      next => nomatch hstep
  | runPosted task =>
      simp only [step] at hstep
      split at hstep
      next =>
        obtain rfl := Option.some.inj hstep
        exact ⟨hclosed, rfl⟩
      next => nomatch hstep
  | stopWait number =>
      simp only [step] at hstep
      split at hstep
      next =>
        split at hstep
        next =>
          obtain rfl := Option.some.inj hstep
          exact ⟨hclosed, rfl⟩
        next => nomatch hstep
      next => nomatch hstep

theorem exec_closed {expiry : Int} (hclosed : s.closed = true) {word : List Action}
    (hexec : (machine algorithms expiry).exec s word = some t) : t.mine = s.mine := by
  induction word generalizing s with
  | nil =>
      obtain rfl := Option.some.inj hexec
      rfl
  | cons a word ih =>
      obtain ⟨next, hstep, hrest⟩ := Option.bind_eq_some_iff.mp hexec
      obtain ⟨hclosed', hmine⟩ := step_closed hclosed hstep
      exact (ih hclosed' hrest).trans hmine

end Steps

theorem ended_le_one (timers : List TimerExpiry.Timer) (n : Nat) :
    TimerExpiry.ended timers n ≤ 1 := by
  unfold TimerExpiry.ended
  split
  · split <;> omega
  · omega

/-- As long as `add_timer` can name its nodes, a timer has at most one live wait, and
the others are called back once. -/
theorem oneLiveWait_of_room (algorithms : BinaryHeap.Algorithms Nat) (expiry : Int)
    {s : State} (hs : (machine algorithms expiry).ReachableUnder Room s) :
    OneLiveWait algorithms s := by
  have hplaced : Placed s := hs.invariant (placed_start algorithms expiry)
    fun _ _ _ hinv _ hstep => step_placed hinv hstep
  have hexact : Exact s := hs.invariant (exact_start algorithms expiry)
    fun _ _ _ hinv hroom hstep => step_exact hinv hroom hstep
  have hnone : s.calls = [] → s.held = [] := by
    intro hcalls
    rw [State.held, hcalls, List.flatMap_nil]
  refine ⟨?_, ?_, fun hclosed word t hexec => exec_closed hclosed hexec, ?_, ?_⟩
  · intro hcalls n hpending
    rcases hplaced.mine n hpending.1 with hhandle | hheld | hcancelled
    · exact Or.inl hhandle
    · simp [hnone hcalls] at hheld
    · exact Or.inr hcancelled
  · intro hcalls hclosed n hpending
    rcases hplaced.mine n hpending.1 with ⟨h, hhandle, _⟩ | hheld | hcancelled
    · rw [hplaced.shut hclosed] at hhandle
      exact absurd hhandle (by simp)
    · simp [hnone hcalls] at hheld
    · exact hcancelled
  · intro n _
    rw [hexact.recorded]
    exact ended_le_one _ _
  · intro hcalls n hn hout
    rw [hexact.recorded]
    rcases hplaced.dropped n hn with hheld | hexecuted | hposted
    · simp [hnone hcalls] at hheld
    · exact hexact.executed n hexecuted
    · exact absurd hposted hout

/-- A second wait supersedes the first one, and the destructor cancels it from
another thread. -/
theorem oneLiveWait_closed :
    ∃ s, (machine (BinaryHeap.sorted Nat) 5).ReachableUnder Room s ∧
      (OneLiveWait (BinaryHeap.sorted Nat) s ∧ s.closed = true ∧ s.mine = [0, 1] ∧
        s.completions = [(0, .aborted), (1, .aborted)]) := by
  obtain ⟨s, hs, hcheck⟩ :=
    (machine (BinaryHeap.sorted Nat) 5).exists_reachableUnder_of_execUnder Room
      [.readExpiry, .registerTimer 0, .readExpiry, .registerTimer 0,
        .cancelHandle 0 true, .close, .cancelHandle 0 false, .runPosted 0]
      (fun s => decide (s.closed = true ∧ s.mine = [0, 1] ∧
        s.completions = [(0, .aborted), (1, .aborted)]))
      (by decide)
  exact ⟨s, hs, oneLiveWait_of_room _ _ hs, of_decide_eq_true hcheck⟩

/-! ### Running out of indices -/

/-- One wait is pending for time `0`, and other timers have taken all nodes but the
last `2 ^ 32 - n`. -/
theorem exists_reachable_crowded (algorithms : BinaryHeap.Algorithms Nat) (n : Nat)
    (hn : n < 2 ^ 32) :
    ∃ s, (machine algorithms 0).Reachable s ∧
      s.expiry = 0 ∧ s.closed = false ∧ s.handle = some ⟨0, 1, 0⟩ ∧ s.calls = [] ∧
      s.posted = [] ∧ s.completions = [] ∧ TimerExpiry.Filled s.timers (n + 1) := by
  induction n with
  | zero =>
      have hempty : TimerExpiry.Filled {} 0 := ⟨rfl, rfl, rfl, nofun⟩
      obtain ⟨hfilled, hresult⟩ := hempty.addTimer algorithms (by decide)
      refine ⟨_, .step (a := .registerTimer 0)
        (.step (a := .readExpiry) .start trivial rfl) trivial rfl,
        rfl, rfl, ?_, rfl, rfl, rfl, hfilled⟩
      change some (⟨(TimerExpiry.State.addTimer algorithms {} 0).2.index,
        (TimerExpiry.State.addTimer algorithms {} 0).2.token, 0⟩ : Handle) = _
      rw [hresult]
  | succ n ih =>
      obtain ⟨s, hs, hexpiry, hclosed, hhandle, hcalls, hposted, hnone, hfilled⟩ :=
        ih (by omega)
      exact ⟨_, .step (a := .addOther 0) hs trivial rfl, hexpiry, hclosed, hhandle,
        hcalls, hposted, hnone, (hfilled.addTimer algorithms (by omega)).1⟩

/-- The handle of the first of `2 ^ 32` timers cancels the one that took its node. -/
theorem overwritten_cancel (algorithms : BinaryHeap.Algorithms Nat)
    {s : TimerExpiry.State} (hs : TimerExpiry.Filled s (2 ^ 32)) :
    ((s.addTimer algorithms 0).1.cancel 0 1).2 = some (2 ^ 32) := by
  have hlength : s.registry.nodes.length = 2 ^ 32 := by
    rw [hs.nodes, TimerRegistry.filled, List.length_map, List.length_range]
  obtain ⟨hnodes, _⟩ :=
    TimerRegistry.addTimer_of_full algorithms hs.free hlength s.timers.length
  have hnode : (s.addTimer algorithms 0).1.registry.node 0 =
      { op := some (2 ^ 32), token := 1 } := by
    rw [(TimerExpiry.filled_node hs.nodes 0).2] at hnodes
    simp only [TimerExpiry.State.addTimer, TimerRegistry.node, hnodes]
    rw [← hs.length, List.getD_eq_getElem _ _ (by simp), List.getElem_set_self]
  have hlt : 0 < (s.addTimer algorithms 0).1.registry.nodes.length := by
    simp [TimerExpiry.State.addTimer, hnodes]
  simp only [TimerExpiry.State.cancel]
  rw [TimerRegistry.cancel_eq, if_pos ⟨by decide, hlt, by rw [hnode], by rw [hnode]⟩,
    hnode]

/-- With `2 ^ 32` timers pending a second wait takes the node of the first one; the
cancellation of the first wait aborts the second, and the first is never called
back. -/
theorem not_oneLiveWait_fullIndex :
    ¬ ∀ s, (machine (BinaryHeap.sorted Nat) 0).Reachable s →
      OneLiveWait (BinaryHeap.sorted Nat) s := by
  intro hall
  obtain ⟨s, hs, hexpiry, hclosed, hhandle, hcalls, hposted, hnone, hfilled⟩ :=
    exists_reachable_crowded (BinaryHeap.sorted Nat) (2 ^ 32 - 1) (by decide)
  have hread : (machine (BinaryHeap.sorted Nat) 0).step s .readExpiry =
      some { s with calls := [.waiting 0] } := by
    simp [machine, step, hcalls, hexpiry]
  have hregister : (machine (BinaryHeap.sorted Nat) 0).step
      { s with calls := [.waiting 0] } (.registerTimer 0) =
        some (State.register (BinaryHeap.sorted Nat) { s with calls := [] } 0) := by
    simp [machine, step, hclosed]
  have hcancel : (machine (BinaryHeap.sorted Nat) 0).step
      (State.register (BinaryHeap.sorted Nat) { s with calls := [] } 0)
      (.cancelHandle 0 true) =
        some (State.execute { State.register (BinaryHeap.sorted Nat)
          { s with calls := [] } 0 with calls := [] } ⟨0, 1, 0⟩) := by
    simp [machine, step, State.register, State.takeHandle, hhandle]
  have honce := (hall _ (.step (.step (.step hs trivial hread) trivial hregister)
    trivial hcancel)).exactlyOnce rfl 0
    (by simp [State.execute, State.abortTimer, State.register, State.takeHandle, hhandle])
    (by simp [State.execute, State.abortTimer, State.register, State.takeHandle, hposted])
  have hcompletions : (State.execute { State.register (BinaryHeap.sorted Nat)
      { s with calls := [] } 0 with calls := [] } ⟨0, 1, 0⟩).completions =
        [(2 ^ 32, .aborted)] := by
    have hop := overwritten_cancel (BinaryHeap.sorted Nat) hfilled
    simp only [State.execute, State.abortTimer, State.register, State.takeHandle, hnone]
    rw [hop]
    rfl
  rw [hcompletions] at honce
  exact absurd honce (by decide)

end SteadyTimer

end Iocoro
