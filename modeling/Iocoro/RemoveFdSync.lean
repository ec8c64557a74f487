/-
`io_context_impl::remove_fd_sync` on foreign threads against the loop: the task it
posts, the wait on `state_change_cv_`, and the fallback once no loop is running.
-/
import Iocoro.TransitionSystem
import Mathlib.Data.List.Basic

namespace Iocoro

namespace RemoveFdSync

/-- Where a call stands.  `direct` and `exchange` have seen `running_` false; from
`loadDone` to `unready` or `passed` the call has `state_change_mtx_`. -/
inductive Pc where
  | loadFirst
  | direct
  | directImpl
  | post
  | lock
  | loadDone
  | loadRunning
  | unready
  | asleep
  | woken
  | passed
  | reload
  | exchange
  | impl
  | store
  | returned
deriving DecidableEq, Repr

/-- A call with its `sync_remove_state`.  `begun` and `ended` count the
executions of `remove_fd_impl` on its behalf. -/
structure Call where
  pc : Pc := .loadFirst
  posted : Bool := false
  removed : Bool := false
  done : Bool := false
  begun : Nat := 0
  ended : Nat := 0
deriving DecidableEq, Repr

/-- `remove_once` of a call, or any other task. -/
inductive Task where
  | remove (call : Nat)
  | other
deriving DecidableEq, Repr

/-- The thread in `run`, `run_one` or `run_for`, with the rest of its batch. -/
inductive Reactor where
  | outside
  | loop
  | batch (rest : List Task)
  | exchange (call : Nat) (rest : List Task)
  | impl (call : Nat) (rest : List Task)
  | store (call : Nat) (rest : List Task)
  | notify (rest : List Task)
  | other (rest : List Task)
deriving DecidableEq, Repr

/-- `leaving` loops have stored `running_` and are about to notify. -/
structure State where
  running : Bool := false
  reactor : Reactor := .outside
  queue : List Task := []
  leaving : Nat := 0
  mutex : Option Nat := none
  calls : List Call := []
deriving DecidableEq, Repr

inductive Action where
  | call
  | advance (c : Nat)
  | spurious (c : Nat)
  | post
  | enter
  | react
  | throw (swallowed : Bool)
  | leave
  | leaveNotify
deriving DecidableEq, Repr

def State.put (s : State) (c : Nat) (call : Call) : State :=
  { s with calls := s.calls.set c call }

/-- The next step of a call.  The predicate of the wait is two loads. -/
def State.callStep (s : State) (c : Nat) (call : Call) : Option State :=
  match call.pc with
  | .loadFirst =>
      some (s.put c { call with pc := if s.running then .post else .direct })
  | .direct =>
      some (s.put c { call with pc := .directImpl, begun := call.begun + 1 })
  | .directImpl =>
      some (s.put c { call with pc := .returned, ended := call.ended + 1 })
  | .post =>
      some { s.put c { call with pc := .lock, posted := true } with
        queue := s.queue ++ [.remove c] }
  | .lock | .woken =>
      if s.mutex.isSome then none
      else some { s.put c { call with pc := .loadDone } with mutex := some c }
  | .loadDone =>
      some (s.put c
        { call with pc := if call.done then .passed else .loadRunning })
  | .loadRunning =>
      some (s.put c
        { call with pc := if s.running then .unready else .passed })
  | .unready => some { s.put c { call with pc := .asleep } with mutex := none }
  | .passed => some { s.put c { call with pc := .reload } with mutex := none }
  | .reload =>
      some (s.put c { call with pc := if call.done then .returned else .exchange })
  | .exchange =>
      if call.removed then some (s.put c { call with pc := .store })
      else some (s.put c
        { call with pc := .impl, removed := true, begun := call.begun + 1 })
  | .impl => some (s.put c { call with pc := .store, ended := call.ended + 1 })
  | .store => some (s.put c { call with pc := .returned, done := true })
  | .asleep | .returned => none

def Call.wake (call : Call) : Call :=
  if call.pc = .asleep then { call with pc := .woken } else call

/-- `notify_state_change`. -/
def State.notifyAll (s : State) : State :=
  { s with calls := s.calls.map Call.wake }

/-- The next step of the loop. -/
def State.react (s : State) : Option State :=
  match s.reactor with
  | .outside => none
  | .loop => some { s with reactor := .batch s.queue, queue := [] }
  | .batch [] => some { s with reactor := .loop }
  | .batch (.remove c :: rest) => some { s with reactor := .exchange c rest }
  | .batch (.other :: rest) => some { s with reactor := .other rest }
  | .exchange c rest => s.calls[c]?.map fun call =>
      if call.removed then { s with reactor := .store c rest }
      else { s.put c { call with removed := true, begun := call.begun + 1 } with
        reactor := .impl c rest }
  | .impl c rest => s.calls[c]?.map fun call =>
      { s.put c { call with ended := call.ended + 1 } with
        reactor := .store c rest }
  | .store c rest => s.calls[c]?.map fun call =>
      { s.put c { call with done := true } with reactor := .notify rest }
  | .notify rest => some { s.notifyAll with reactor := .batch rest }
  | .other rest => some { s with reactor := .batch rest }

/-- The scope guard of the loop stores `running_`. -/
def State.leave (s : State) : State :=
  { s with running := false, reactor := .outside, leaving := s.leaving + 1 }

def step (s : State) : Action → Option State
  | .call => some { s with calls := s.calls ++ [{}] }
  | .advance c => s.calls[c]?.bind (s.callStep c)
  | .spurious c => s.calls[c]?.bind fun call =>
      if call.pc = .asleep then some (s.put c call.wake) else none
  | .post => some { s with queue := s.queue ++ [.other] }
  | .enter =>
      if s.running then none
      else some { s with running := true, reactor := .loop }
  | .react => s.react
  | .throw swallowed =>
      match s.reactor with
      | .other rest =>
          let t := { s with reactor := .loop, queue := s.queue ++ rest }
          some (if swallowed then t else t.leave)
      | _ => none
  | .leave => if s.reactor = .loop then some s.leave else none
  | .leaveNotify =>
      if s.leaving = 0 then none
      else some { s.notifyAll with leaving := s.leaving - 1 }

def system : TransitionSystem State Action where
  start := {}
  step := step

/-! ### Synchronous and once -/

/-- The call runs `remove_fd_impl` itself. -/
def Pc.executing : Pc → Bool
  | .directImpl | .impl => true
  | _ => false

/-- A call of `notify_all` is still to come. -/
def State.noticeComing (s : State) : Bool :=
  decide (0 < s.leaving) ||
    match s.reactor with
    | .notify _ => true
    | _ => false

/-- When a call has returned, `remove_fd_impl` was executed exactly once on its
behalf; a foreign thread executes it only while no loop is running; and a call
that is blocked although `done` is set or no loop is running will be notified. -/
structure Synchronous (s : State) : Prop where
  once : ∀ call ∈ s.calls, call.pc = .returned →
    call.begun = 1 ∧ call.ended = 1
  reactorOnly : ∀ call ∈ s.calls, call.pc.executing = true → s.running = false
  notified : ∀ call ∈ s.calls, call.pc = .asleep →
    (call.done = true ∨ s.running = false) → s.noticeComing = true

/-- The call has seen `running_` false and acts on that. -/
@[simp] def Call.sawIdle (call : Call) : Bool :=
  match call.pc with
  | .direct | .directImpl | .exchange | .impl | .store => true
  | .passed | .reload => !call.done
  | _ => false

/-- The call has found a part of its predicate false that now holds. -/
@[simp] def Call.stale (running : Bool) (call : Call) : Bool :=
  match call.pc with
  | .loadRunning => call.done
  | .unready => call.done || !running
  | _ => false

/-- No loop starts while a call that has seen `running_` false has not returned,
and `notify_all` is not called while a call that must see it is on its way to
sleep. -/
def State.orderly (s : State) : Action → Bool
  | .enter => s.calls.all fun call => !call.sawIdle
  | .react =>
      match s.reactor with
      | .notify _ => s.calls.all fun call => !call.stale s.running
      | _ => true
  | .leaveNotify => s.calls.all fun call => !call.stale s.running
  | _ => true

/-! ### The invariant -/

/-- What a call that has not posted has executed. -/
@[simp] def Pc.direct? : Pc → Option (Nat × Nat)
  | .loadFirst | .direct | .post => some (0, 0)
  | .directImpl => some (1, 0)
  | .returned => some (1, 1)
  | _ => none

/-- The places of a call that has posted its task. -/
@[simp] def Pc.late : Pc → Bool
  | .loadFirst | .direct | .directImpl | .post => false
  | _ => true

def Task.calls : Task → List Nat
  | .remove c => [c]
  | .other => []

/-- The calls whose task the loop has taken out of the queue. -/
@[simp] def Reactor.calls : Reactor → List Nat
  | .outside | .loop => []
  | .batch rest | .notify rest | .other rest => rest.flatMap Task.calls
  | .exchange c rest | .impl c rest | .store c rest =>
      c :: rest.flatMap Task.calls

/-- The loop runs `remove_fd_impl` for the call. -/
@[simp] def Reactor.executes (c : Nat) : Reactor → Bool
  | .impl mine _ => mine == c
  | _ => false

/-- The loop has `remove_once` of the call behind its exchange. -/
@[simp] def Reactor.claims (c : Nat) : Reactor → Bool
  | .impl mine _ | .store mine _ => mine == c
  | _ => false

structure CallOk (s : State) (c : Nat) (call : Call) : Prop where
  direct : call.posted = false → call.removed = false ∧ call.done = false ∧
    call.pc.direct? = some (call.begun, call.ended)
  late : call.posted = true → call.pc.late = true
  unclaimed : call.posted = true → call.removed = false →
    call.begun = 0 ∧ call.ended = 0 ∧ call.pc ≠ .impl ∧ call.pc ≠ .store
  claimed : call.removed = true → call.begun = 1 ∧
    call.ended = if s.reactor.executes c || call.pc == .impl then 0 else 1
  done : call.done = true → call.removed = true ∧ call.ended = 1
  returned : call.posted = true → call.pc = .returned → call.done = true
  claims : s.reactor.claims c = true → call.removed = true
  idle : call.sawIdle = true → s.running = false
  stale : call.stale s.running = true → s.noticeComing = true
  asleep : call.pc = .asleep → (call.done = true ∨ s.running = false) →
    s.noticeComing = true

structure Inv (s : State) : Prop where
  outside : s.running = false ↔ s.reactor = .outside
  pending : ∀ c ∈ s.queue.flatMap Task.calls ++ s.reactor.calls,
    ∃ call, s.calls[c]? = some call ∧ call.posted = true
  calls : ∀ (c : Nat) (call : Call), s.calls[c]? = some call → CallOk s c call

theorem Inv.synchronous {s : State} (hs : Inv s) : Synchronous s where
  once := by
    intro call hcall hreturned
    obtain ⟨c, hc⟩ := List.mem_iff_getElem?.mp hcall
    have hok := hs.calls c call hc
    cases hposted : call.posted with
    | false =>
        obtain ⟨-, -, hcounts⟩ := hok.direct hposted
        simp only [hreturned, Pc.direct?, Option.some.injEq, Prod.mk.injEq] at hcounts
        exact ⟨hcounts.1.symm, hcounts.2.symm⟩
    | true =>
        obtain ⟨hremoved, hended⟩ := hok.done (hok.returned hposted hreturned)
        exact ⟨(hok.claimed hremoved).1, hended⟩
  reactorOnly := by
    intro call hcall hexecuting
    obtain ⟨c, hc⟩ := List.mem_iff_getElem?.mp hcall
    apply (hs.calls c call hc).idle
    cases hpc : call.pc <;> simp_all [Pc.executing]
  notified := by
    intro call hcall
    obtain ⟨c, hc⟩ := List.mem_iff_getElem?.mp hcall
    exact (hs.calls c call hc).asleep

/-- What a call depends on. -/
theorem CallOk.congr {s t : State} {c : Nat} {call : Call} (h : CallOk s c call)
    (hrunning : t.running = s.running) (hreactor : t.reactor = s.reactor)
    (hleaving : t.leaving = s.leaving) : CallOk t c call := by
  have hcoming : t.noticeComing = s.noticeComing := by
    simp only [State.noticeComing, hreactor, hleaving]
  exact { h with
    claimed := by rw [hreactor]; exact h.claimed
    claims := by rw [hreactor]; exact h.claims
    idle := by rw [hrunning]; exact h.idle
    stale := by rw [hrunning, hcoming]; exact h.stale
    asleep := by rw [hrunning, hcoming]; exact h.asleep }

/-- An update of one call, under the same loop. -/
theorem Inv.put {s : State} (hs : Inv s) {c : Nat} {call : Call}
    (hc : s.calls[c]? = some call) (new : Call) (queue : List Task)
    (mutex : Option Nat)
    (hqueue : ∀ other ∈ queue.flatMap Task.calls,
      other ∈ s.queue.flatMap Task.calls ∨ (other = c ∧ new.posted = true))
    (hposted : call.posted = true → new.posted = true)
    (hnew : CallOk s c new) : Inv { s.put c new with queue, mutex } where
  outside := hs.outside
  pending := by
    have hlt := (List.getElem?_eq_some_iff.mp hc).1
    have hkeep : ∀ other : Nat, (∃ mine : Call, s.calls[other]? = some mine ∧
        mine.posted = true) →
        ∃ mine : Call, (s.calls.set c new)[other]? = some mine ∧
          mine.posted = true := by
      intro other ⟨mine, hmine, hpostedMine⟩
      rw [List.getElem?_set]
      by_cases heq : c = other
      · subst heq
        obtain rfl := Option.some.inj (hc.symm.trans hmine)
        exact ⟨new, by simp [hlt], hposted hpostedMine⟩
      · exact ⟨mine, by simpa [heq] using hmine, hpostedMine⟩
    intro other hother
    rcases List.mem_append.mp hother with hq | hr
    · rcases hqueue other hq with hold | ⟨rfl, hnewPosted⟩
      · exact hkeep other (hs.pending other (List.mem_append_left _ hold))
      · exact ⟨new, List.getElem?_set_self hlt, hnewPosted⟩
    · exact hkeep other (hs.pending other (List.mem_append_right _ hr))
  calls := by
    intro other mine hmine
    refine CallOk.congr (s := s) ?_ rfl rfl rfl
    change (s.calls.set c new)[other]? = some mine at hmine
    rw [List.getElem?_set] at hmine
    by_cases heq : c = other
    · subst heq
      have hlt := (List.getElem?_eq_some_iff.mp hc).1
      simp only [hlt, if_true, Option.some.injEq] at hmine
      exact hmine ▸ hnew
    · rw [if_neg heq] at hmine
      exact hs.calls other mine hmine

theorem Inv.goto {s : State} (hs : Inv s) {c : Nat} {call : Call}
    (hc : s.calls[c]? = some call) (new : Call) (mutex : Option Nat)
    (hposted : new.posted = call.posted) (hnew : CallOk s c new) :
    Inv { s.put c new with mutex } :=
  hs.put hc new s.queue mutex (fun _ h => .inl h) (fun h => hposted ▸ h) hnew

theorem CallOk.posted_of_late {s : State} {c : Nat} {call : Call}
    (h : CallOk s c call) (hpc : call.pc.direct? = none) : call.posted = true := by
  by_contra hposted
  obtain ⟨-, -, hcounts⟩ := h.direct (by simpa using hposted)
  rw [hpc] at hcounts
  simp at hcounts

theorem CallOk.posted_of_early {s : State} {c : Nat} {call : Call}
    (h : CallOk s c call) (hpc : call.pc.late = false) : call.posted = false := by
  by_contra hposted
  rw [h.late (by simpa using hposted)] at hpc
  simp at hpc

/-- A call that has posted its task moves on without touching its
`sync_remove_state`. -/
theorem CallOk.move {s : State} {c : Nat} {call : Call} (h : CallOk s c call)
    (hold : call.pc.direct? = none) (himpl : call.pc ≠ .impl) (pc : Pc)
    (hlate : pc.late = true) (hpc : pc ≠ .impl)
    (hstore : pc = .store → call.removed = true)
    (hreturned : pc = .returned → call.done = true)
    (hidle : Call.sawIdle { call with pc } = true → s.running = false)
    (hstale : Call.stale s.running { call with pc } = true →
      s.noticeComing = true)
    (hasleep : pc = .asleep → (call.done = true ∨ s.running = false) →
      s.noticeComing = true) : CallOk s c { call with pc } where
  direct hposted := by simp [h.posted_of_late hold] at hposted
  late _ := hlate
  unclaimed hposted hremoved := by
    obtain ⟨hbegun, hended, -, -⟩ := h.unclaimed hposted hremoved
    refine ⟨hbegun, hended, hpc, fun heq => ?_⟩
    rw [hstore heq] at hremoved
    simp at hremoved
  claimed hremoved := by
    have hclaimed := h.claimed hremoved
    simpa [himpl, hpc] using hclaimed
  done := h.done
  returned _ := hreturned
  claims := h.claims
  idle := hidle
  stale := hstale
  asleep := hasleep

theorem claims_eq_false {s : State} (hs : Inv s) {c : Nat} {call : Call}
    (hc : s.calls[c]? = some call) (hremoved : call.removed = false) :
    s.reactor.claims c = false := by
  by_contra hclaims
  rw [(hs.calls c call hc).claims (by simpa using hclaims)] at hremoved
  simp at hremoved

/-- Only a call that has posted its task can be stale. -/
theorem Call.direct_of_stale {call : Call} {running : Bool}
    (hstale : call.stale running = true) : call.pc.direct? = none := by
  unfold Call.stale at hstale
  split at hstale
  · next hpc => rw [hpc]; rfl
  · next hpc => rw [hpc]; rfl
  · simp at hstale

/-- What is stale under a running loop was so without one. -/
theorem Call.stale_of_running {call : Call} (hstale : call.stale true = true)
    (running : Bool) : call.stale running = true := by
  unfold Call.stale at hstale ⊢
  split at hstale
  · exact hstale
  · simp only [Bool.not_true, Bool.or_false] at hstale
    simp [hstale]
  · simp at hstale

/-- The store of `done` makes no call act on an idle loop. -/
theorem Call.sawIdle_of_done {call : Call}
    (hidle : Call.sawIdle { call with done := true } = true) :
    call.sawIdle = true := by
  unfold Call.sawIdle at hidle ⊢
  split at hidle
  all_goals simp_all

/-- What a call knows before it has posted its task. -/
theorem Inv.early {s : State} (hs : Inv s) {c : Nat} {call : Call}
    (hc : s.calls[c]? = some call) (hpc : call.pc.late = false) :
    call.posted = false ∧ call.removed = false ∧ call.done = false ∧
      s.reactor.claims c = false ∧
      call.pc.direct? = some (call.begun, call.ended) := by
  have hok := hs.calls c call hc
  have hposted := hok.posted_of_early hpc
  obtain ⟨hremoved, hdone, hcounts⟩ := hok.direct hposted
  exact ⟨hposted, hremoved, hdone, claims_eq_false hs hc hremoved, hcounts⟩

/-- A call that has not posted its task moves on. -/
theorem Inv.direct {s : State} (hs : Inv s) {c : Nat} {call : Call}
    (hc : s.calls[c]? = some call) (hpc : call.pc.late = false) (pc : Pc)
    (begun ended : Nat) (hcounts : pc.direct? = some (begun, ended))
    (hidle : Call.sawIdle { call with pc, begun, ended } = true →
      s.running = false) : Inv (s.put c { call with pc, begun, ended }) := by
  obtain ⟨hposted, hremoved, hdone, hclaims, -⟩ := hs.early hc hpc
  refine hs.goto hc _ s.mutex rfl ?_
  exact {
    direct := fun _ => ⟨hremoved, hdone, hcounts⟩
    late := by simp [hposted]
    unclaimed := by simp [hposted]
    claimed := by simp [hremoved]
    done := by simp [hdone]
    returned := by simp [hposted]
    claims := fun h => Bool.noConfusion (hclaims.symm.trans h)
    idle := hidle
    stale := fun hstale => by
      have hnone := Call.direct_of_stale hstale
      rw [hcounts] at hnone
      simp at hnone
    asleep := by
      rintro rfl
      simp at hcounts }

/-- A call posts its task. -/
theorem post_inv {s : State} (hs : Inv s) {c : Nat} {call : Call}
    (hc : s.calls[c]? = some call) (hpc : call.pc = .post) :
    Inv { s.put c { call with pc := .lock, posted := true } with
      queue := s.queue ++ [.remove c] } := by
  obtain ⟨-, hremoved, hdone, hclaims, hcounts⟩ := hs.early hc (by simp [hpc])
  simp only [hpc, Pc.direct?, Option.some.injEq, Prod.mk.injEq] at hcounts
  apply hs.put hc { call with pc := .lock, posted := true } _ s.mutex
  · intro other hother
    rw [List.flatMap_append, List.mem_append] at hother
    rcases hother with hold | hnew
    · exact .inl hold
    · exact .inr ⟨by simpa [Task.calls] using hnew, rfl⟩
  · exact fun _ => rfl
  · exact {
      direct := by simp
      late := by simp
      unclaimed := fun _ _ => ⟨hcounts.1.symm, hcounts.2.symm, by simp, by simp⟩
      claimed := by simp [hremoved]
      done := by simp [hdone]
      returned := by simp
      claims := fun h => Bool.noConfusion (hclaims.symm.trans h)
      idle := by simp
      stale := by simp
      asleep := by simp }

/-- What a call knows that falls back on removing the descriptor itself. -/
theorem Inv.fallback {s : State} (hs : Inv s) {c : Nat} {call : Call}
    (hc : s.calls[c]? = some call) (hidle : call.sawIdle = true)
    (hlate : call.pc.direct? = none) :
    s.running = false ∧ s.reactor = .outside ∧ call.posted = true := by
  have hok := hs.calls c call hc
  have hrunning := hok.idle hidle
  exact ⟨hrunning, hs.outside.mp hrunning, hok.posted_of_late hlate⟩

/-- The fallback finds the call unclaimed. -/
theorem fallbackExchange_inv {s : State} (hs : Inv s) {c : Nat} {call : Call}
    (hc : s.calls[c]? = some call) (hpc : call.pc = .exchange)
    (hremoved : call.removed = false) :
    Inv (s.put c
      { call with pc := .impl, removed := true, begun := call.begun + 1 }) := by
  have hok := hs.calls c call hc
  obtain ⟨hrunning, -, hposted⟩ := hs.fallback hc (by simp [hpc]) (by simp [hpc])
  obtain ⟨hbegun, hended, -, -⟩ := hok.unclaimed hposted hremoved
  refine hs.goto hc _ _ rfl ?_
  exact {
    direct := by simp [hposted]
    late := by simp
    unclaimed := by simp
    claimed := fun _ => by simp [hbegun, hended]
    done := fun hdone => by simp [(hok.done hdone).1] at hremoved
    returned := by simp
    claims := by simp
    idle := fun _ => hrunning
    stale := by simp
    asleep := by simp }

theorem fallbackImpl_inv {s : State} (hs : Inv s) {c : Nat} {call : Call}
    (hc : s.calls[c]? = some call) (hpc : call.pc = .impl) :
    Inv (s.put c { call with pc := .store, ended := call.ended + 1 }) := by
  have hok := hs.calls c call hc
  obtain ⟨hrunning, houtside, hposted⟩ :=
    hs.fallback hc (by simp [hpc]) (by simp [hpc])
  have hremoved : call.removed = true := by
    by_contra hfree
    exact (hok.unclaimed hposted (by simpa using hfree)).2.2.1 hpc
  obtain ⟨hbegun, hended⟩ := hok.claimed hremoved
  simp only [hpc, beq_self_eq_true, Bool.or_true, if_true] at hended
  refine hs.goto hc _ _ rfl ?_
  exact {
    direct := by simp [hposted]
    late := by simp
    unclaimed := by simp [hremoved]
    claimed := fun _ => by simp [hbegun, hended, houtside]
    done := fun _ => ⟨hremoved, by simp [hended]⟩
    returned := by simp
    claims := fun _ => hremoved
    idle := fun _ => hrunning
    stale := by simp
    asleep := by simp }

theorem fallbackStore_inv {s : State} (hs : Inv s) {c : Nat} {call : Call}
    (hc : s.calls[c]? = some call) (hpc : call.pc = .store) :
    Inv (s.put c { call with pc := .returned, done := true }) := by
  have hok := hs.calls c call hc
  obtain ⟨-, houtside, hposted⟩ := hs.fallback hc (by simp [hpc]) (by simp [hpc])
  have hremoved : call.removed = true := by
    by_contra hfree
    exact (hok.unclaimed hposted (by simpa using hfree)).2.2.2 hpc
  obtain ⟨hbegun, hended⟩ := hok.claimed hremoved
  simp only [hpc, houtside, Reactor.executes] at hended
  refine hs.goto hc _ _ rfl ?_
  exact {
    direct := by simp [hposted]
    late := by simp
    unclaimed := by simp [hremoved]
    claimed := fun _ => ⟨hbegun, by simpa [houtside] using hended⟩
    done := fun _ => ⟨hremoved, by simpa using hended⟩
    returned := by simp
    claims := fun _ => hremoved
    idle := by simp
    stale := by simp
    asleep := by simp }

theorem callStep_inv {s t : State} {c : Nat} {call : Call} (hs : Inv s)
    (hc : s.calls[c]? = some call) (hstep : s.callStep c call = some t) :
    Inv t := by
  have hok := hs.calls c call hc
  unfold State.callStep at hstep
  split at hstep
  · next hpc =>
      obtain rfl := Option.some.inj hstep
      obtain ⟨-, -, -, -, hcounts⟩ := hs.early hc (by simp [hpc])
      apply hs.direct hc (by simp [hpc])
      · rw [← hcounts, hpc]
        cases s.running <;> rfl
      · cases s.running <;> simp
  · next hpc =>
      obtain rfl := Option.some.inj hstep
      obtain ⟨-, -, -, -, hcounts⟩ := hs.early hc (by simp [hpc])
      simp only [hpc, Pc.direct?, Option.some.injEq, Prod.mk.injEq] at hcounts
      apply hs.direct hc (by simp [hpc])
      · rw [← hcounts.1, ← hcounts.2]
        rfl
      · exact fun _ => hok.idle (by simp [hpc])
  · next hpc =>
      obtain rfl := Option.some.inj hstep
      obtain ⟨-, -, -, -, hcounts⟩ := hs.early hc (by simp [hpc])
      simp only [hpc, Pc.direct?, Option.some.injEq, Prod.mk.injEq] at hcounts
      apply hs.direct hc (by simp [hpc])
      · rw [← hcounts.1, ← hcounts.2]
        rfl
      · simp
  · next hpc =>
      obtain rfl := Option.some.inj hstep
      exact post_inv hs hc hpc
  · next hpc =>
      split at hstep
      · simp at hstep
      · obtain rfl := Option.some.inj hstep
        refine hs.goto hc _ _ rfl ?_
        apply hok.move <;> simp [hpc]
  · next hpc =>
      split at hstep
      · simp at hstep
      · obtain rfl := Option.some.inj hstep
        refine hs.goto hc _ _ rfl ?_
        apply hok.move <;> simp [hpc]
  · next hpc =>
      obtain rfl := Option.some.inj hstep
      refine hs.goto hc _ _ rfl ?_
      apply hok.move <;> cases hdone : call.done <;> simp [hpc]
  · next hpc =>
      obtain rfl := Option.some.inj hstep
      have hstale := hok.stale
      refine hs.goto hc _ _ rfl ?_
      apply hok.move <;> cases hrunning : s.running <;> simp_all
  · next hpc =>
      obtain rfl := Option.some.inj hstep
      have hstale := hok.stale
      refine hs.goto hc _ _ rfl ?_
      apply hok.move <;> simp_all
  · next hpc =>
      obtain rfl := Option.some.inj hstep
      have hidle := hok.idle
      refine hs.goto hc _ _ rfl ?_
      apply hok.move <;> simp_all
  · next hpc =>
      obtain rfl := Option.some.inj hstep
      have hidle := hok.idle
      refine hs.goto hc _ _ rfl ?_
      apply hok.move <;> cases hdone : call.done <;> simp_all
  · next hpc =>
      split at hstep
      · next hremoved =>
          have hidle := hok.idle
          obtain rfl := Option.some.inj hstep
          refine hs.goto hc _ _ rfl ?_
          apply hok.move <;> simp_all
      · next hremoved =>
          obtain rfl := Option.some.inj hstep
          exact fallbackExchange_inv hs hc hpc (by simpa using hremoved)
  · next hpc =>
      obtain rfl := Option.some.inj hstep
      exact fallbackImpl_inv hs hc hpc
  · next hpc =>
      obtain rfl := Option.some.inj hstep
      exact fallbackStore_inv hs hc hpc
  · simp at hstep
  · simp at hstep

/-! ### The loop -/

/-- A step of the loop that leaves the call alone. -/
theorem CallOk.react {s t : State} {c : Nat} {call : Call} (h : CallOk s c call)
    (hrunning : t.running = s.running)
    (hexecutes : t.reactor.executes c = s.reactor.executes c)
    (hclaims : t.reactor.claims c = true → call.removed = true)
    (hcoming : s.noticeComing = true → t.noticeComing = true) :
    CallOk t c call :=
  { h with
    claimed := by rw [hexecutes]; exact h.claimed
    claims := hclaims
    idle := by rw [hrunning]; exact h.idle
    stale := by rw [hrunning]; exact fun hstale => hcoming (h.stale hstale)
    asleep := by
      rw [hrunning]
      exact fun hpc hready => hcoming (h.asleep hpc hready) }

/-- A step of the loop between two tasks. -/
theorem Inv.setReactor {s : State} (hs : Inv s) (reactor : Reactor)
    (queue : List Task) (hinside : s.reactor ≠ .outside)
    (houtside : reactor ≠ .outside)
    (hpending : ∀ c ∈ queue.flatMap Task.calls ++ reactor.calls,
      c ∈ s.queue.flatMap Task.calls ++ s.reactor.calls)
    (hexecutes : ∀ c, reactor.executes c = s.reactor.executes c)
    (hclaims : ∀ c call, s.calls[c]? = some call → reactor.claims c = true →
      call.removed = true)
    (hcoming : s.noticeComing = true →
      State.noticeComing { s with reactor, queue } = true) :
    Inv { s with reactor, queue } where
  outside := by simp [hs.outside, hinside, houtside]
  pending c hc := hs.pending c (hpending c hc)
  calls c call hc :=
    (hs.calls c call hc).react rfl (hexecutes c) (hclaims c call hc) hcoming

/-- A step of `remove_once`. -/
theorem Inv.setTask {s : State} (hs : Inv s) {c : Nat} {call : Call}
    (hc : s.calls[c]? = some call) (new : Call) (reactor : Reactor)
    (hinside : s.reactor ≠ .outside) (houtside : reactor ≠ .outside)
    (hposted : new.posted = call.posted)
    (hpending : ∀ other ∈ reactor.calls, other ∈ s.reactor.calls)
    (hexecutes : ∀ other, other ≠ c →
      reactor.executes other = s.reactor.executes other)
    (hclaims : ∀ other, other ≠ c → reactor.claims other = true →
      s.reactor.claims other = true)
    (hcoming : s.noticeComing = true →
      State.noticeComing { s.put c new with reactor } = true)
    (hnew : CallOk { s.put c new with reactor } c new) :
    Inv { s.put c new with reactor } where
  outside := by
    change s.running = false ↔ reactor = .outside
    simp [hs.outside, hinside, houtside]
  pending := by
    intro other hother
    have hbefore : other ∈ s.queue.flatMap Task.calls ++ s.reactor.calls := by
      rcases List.mem_append.mp hother with hq | hr
      · exact List.mem_append_left _ hq
      · exact List.mem_append_right _ (hpending other hr)
    obtain ⟨mine, hmine, hpostedMine⟩ := hs.pending other hbefore
    change ∃ call, (s.calls.set c new)[other]? = some call ∧ call.posted = true
    by_cases heq : c = other
    · subst heq
      obtain rfl := Option.some.inj (hc.symm.trans hmine)
      exact ⟨new, List.getElem?_set_self (List.getElem?_eq_some_iff.mp hc).1,
        hposted ▸ hpostedMine⟩
    · exact ⟨mine, (List.getElem?_set_ne heq).trans hmine, hpostedMine⟩
  calls := by
    intro other mine hmine
    change (s.calls.set c new)[other]? = some mine at hmine
    by_cases heq : c = other
    · subst heq
      rw [List.getElem?_set_self (List.getElem?_eq_some_iff.mp hc).1] at hmine
      exact Option.some.inj hmine ▸ hnew
    · rw [List.getElem?_set_ne heq] at hmine
      have hok := hs.calls other mine hmine
      exact hok.react rfl (hexecutes other (Ne.symm heq))
        (fun h => hok.claims (hclaims other (Ne.symm heq) h)) hcoming

/-- `remove_once` finds its call unclaimed and executes `remove_fd_impl`. -/
theorem exchange_inv {s : State} (hs : Inv s) {c : Nat} {rest : List Task}
    {call : Call} (hreactor : s.reactor = .exchange c rest)
    (hc : s.calls[c]? = some call) (hposted : call.posted = true)
    (hremoved : call.removed = false) :
    Inv { s.put c { call with removed := true, begun := call.begun + 1 } with
      reactor := .impl c rest } := by
  have hok := hs.calls c call hc
  obtain ⟨hbegun, hended, himpl, hstore⟩ := hok.unclaimed hposted hremoved
  have hcoming : s.noticeComing = true → State.noticeComing
      { s.put c { call with removed := true, begun := call.begun + 1 } with
        reactor := .impl c rest } = true := by
    simp [State.noticeComing, State.put, hreactor]
  apply hs.setTask hc { call with removed := true, begun := call.begun + 1 }
    (.impl c rest) (by simp [hreactor]) (by simp) rfl
  · simp [hreactor]
  · intro other hne
    simp [hreactor, Ne.symm hne]
  · intro other hne
    simp [hreactor, Ne.symm hne]
  · exact hcoming
  · exact {
      direct := by simp [hposted]
      late := hok.late
      unclaimed := by simp
      claimed := fun _ => by simp [hbegun, hended]
      done := fun hdone => by simp [(hok.done hdone).1] at hremoved
      returned := hok.returned
      claims := by simp
      idle := hok.idle
      stale := fun hstale => hcoming (hok.stale hstale)
      asleep := fun hpc hready => hcoming (hok.asleep hpc hready) }

theorem implEnds_inv {s : State} (hs : Inv s) {c : Nat} {rest : List Task}
    {call : Call} (hreactor : s.reactor = .impl c rest)
    (hc : s.calls[c]? = some call) :
    Inv { s.put c { call with ended := call.ended + 1 } with
      reactor := .store c rest } := by
  have hok := hs.calls c call hc
  have hremoved := hok.claims (by simp [hreactor])
  obtain ⟨hbegun, hended⟩ := hok.claimed hremoved
  have himpl : call.pc ≠ .impl := by
    intro hpc
    have hrunning := hok.idle (by simp [hpc])
    rw [hs.outside, hreactor] at hrunning
    simp at hrunning
  have hzero : call.ended = 0 := by simpa [hreactor] using hended
  have hcoming : s.noticeComing = true → State.noticeComing
      { s.put c { call with ended := call.ended + 1 } with
        reactor := .store c rest } = true := by
    simp [State.noticeComing, State.put, hreactor]
  apply hs.setTask hc { call with ended := call.ended + 1 } (.store c rest)
    (by simp [hreactor]) (by simp) rfl
  · simp [hreactor]
  · intro other hne
    simp [hreactor, Ne.symm hne]
  · intro other hne
    simp [hreactor, Ne.symm hne]
  · exact hcoming
  · exact {
      direct := fun hposted => by simp [(hok.direct hposted).1] at hremoved
      late := hok.late
      unclaimed := by simp [hremoved]
      claimed := fun _ => by simp [hbegun, hzero, himpl]
      done := fun _ => ⟨hremoved, by simp [hzero]⟩
      returned := hok.returned
      claims := fun _ => hremoved
      idle := hok.idle
      stale := fun hstale => hcoming (hok.stale hstale)
      asleep := fun hpc hready => hcoming (hok.asleep hpc hready) }

theorem storeDone_inv {s : State} (hs : Inv s) {c : Nat} {rest : List Task}
    {call : Call} (hreactor : s.reactor = .store c rest)
    (hc : s.calls[c]? = some call) :
    Inv { s.put c { call with done := true } with reactor := .notify rest } := by
  have hok := hs.calls c call hc
  have hremoved := hok.claims (by simp [hreactor])
  obtain ⟨hbegun, hended⟩ := hok.claimed hremoved
  have hrunning : s.running ≠ false := by
    rw [ne_eq, hs.outside, hreactor]
    simp
  have himpl : call.pc ≠ .impl := fun hpc => hrunning (hok.idle (by simp [hpc]))
  have hone : call.ended = 1 := by simpa [hreactor, himpl] using hended
  have hcoming : State.noticeComing
      { s.put c { call with done := true } with reactor := .notify rest } =
        true := by
    simp [State.noticeComing]
  apply hs.setTask hc { call with done := true } (.notify rest)
    (by simp [hreactor]) (by simp) rfl
  · intro other hother
    simp only [hreactor, Reactor.calls] at hother ⊢
    exact List.mem_cons_of_mem c hother
  · simp [hreactor]
  · simp
  · exact fun _ => hcoming
  · exact {
      direct := fun hposted => by simp [(hok.direct hposted).1] at hremoved
      late := hok.late
      unclaimed := by simp [hremoved]
      claimed := fun _ => by simp [hbegun, hone, himpl]
      done := fun _ => ⟨hremoved, hone⟩
      returned := fun _ _ => rfl
      claims := fun _ => hremoved
      idle := fun hidle => hok.idle (Call.sawIdle_of_done hidle)
      stale := fun _ => hcoming
      asleep := fun _ _ => hcoming }

/-- `notify_all` wakes every call that sleeps; none is on its way to sleep. -/
theorem CallOk.wake {s t : State} {c : Nat} {call : Call} (h : CallOk s c call)
    (hrunning : t.running = s.running)
    (hexecutes : t.reactor.executes c = s.reactor.executes c)
    (hclaims : t.reactor.claims c = true → call.removed = true)
    (hfresh : call.stale s.running = false) : CallOk t c call.wake := by
  unfold Call.wake
  split
  · next hasleep =>
      have hclaimed := h.claimed
      have hunclaimed := h.unclaimed
      exact { h with
        direct := fun hposted =>
          absurd (h.direct hposted).2.2 (by simp [hasleep])
        late := by simp
        unclaimed := fun hposted hremoved => by
          obtain ⟨hbegun, hended, -, -⟩ := hunclaimed hposted hremoved
          exact ⟨hbegun, hended, by simp, by simp⟩
        claimed := by
          rw [hexecutes]
          simpa [hasleep] using hclaimed
        returned := by simp
        claims := hclaims
        idle := by simp
        stale := by simp
        asleep := by simp }
  · next hawake =>
      exact { h with
        claimed := by rw [hexecutes]; exact h.claimed
        claims := hclaims
        idle := by rw [hrunning]; exact h.idle
        stale := by
          intro hstale
          rw [hrunning, hfresh] at hstale
          simp at hstale
        asleep := fun hpc => absurd hpc hawake }

/-- `notify_all` while no call that must see it is on its way to sleep. -/
theorem Inv.notify {s : State} (hs : Inv s) (reactor : Reactor) (leaving : Nat)
    (houtside : reactor = .outside ↔ s.reactor = .outside)
    (hcalls : reactor.calls = s.reactor.calls)
    (hexecutes : ∀ c, reactor.executes c = s.reactor.executes c)
    (hclaims : ∀ c, reactor.claims c = s.reactor.claims c)
    (hfresh : (s.calls.all fun call => !call.stale s.running) = true) :
    Inv { s.notifyAll with reactor, leaving } where
  outside := by
    change s.running = false ↔ reactor = .outside
    rw [hs.outside, houtside]
  pending := by
    intro c hc
    change c ∈ s.queue.flatMap Task.calls ++ reactor.calls at hc
    rw [hcalls] at hc
    obtain ⟨call, hcall, hposted⟩ := hs.pending c hc
    refine ⟨call.wake, by simp [State.notifyAll, hcall], ?_⟩
    unfold Call.wake
    split <;> exact hposted
  calls := by
    intro c call hcall
    simp only [State.notifyAll, List.getElem?_map, Option.map_eq_some_iff] at hcall
    obtain ⟨old, hold, rfl⟩ := hcall
    have hok := hs.calls c old hold
    have hstale := List.all_eq_true.mp hfresh old (List.mem_of_getElem? hold)
    refine CallOk.wake (t := { s.notifyAll with reactor, leaving }) hok rfl
      (hexecutes c) ?_ ?_
    · intro hclaim
      exact hok.claims ((hclaims c).symm.trans hclaim)
    · simpa only [Bool.not_eq_true'] using hstale

theorem react_inv {s t : State} (hs : Inv s) (horderly : s.orderly .react = true)
    (hstep : s.react = some t) : Inv t := by
  unfold State.react at hstep
  split at hstep
  · simp at hstep
  · next hreactor =>
      obtain rfl := Option.some.inj hstep
      apply hs.setReactor (.batch s.queue) [] <;>
        simp [hreactor, State.noticeComing]
  · next hreactor =>
      obtain rfl := Option.some.inj hstep
      apply hs.setReactor .loop s.queue <;>
        simp +contextual [hreactor, State.noticeComing]
  · next c rest hreactor =>
      obtain rfl := Option.some.inj hstep
      apply hs.setReactor (.exchange c rest) s.queue <;>
        simp +contextual [hreactor, State.noticeComing, Task.calls]
  · next rest hreactor =>
      obtain rfl := Option.some.inj hstep
      apply hs.setReactor (.other rest) s.queue <;>
        simp +contextual [hreactor, State.noticeComing, Task.calls]
  · next c rest hreactor =>
      obtain ⟨call, hc, hposted⟩ := hs.pending c (by simp [hreactor])
      rw [hc, Option.map_some, Option.some.injEq] at hstep
      split at hstep
      · next hremoved =>
          subst hstep
          apply hs.setReactor (.store c rest) s.queue
          case hclaims =>
            intro other mine hmine hclaim
            simp only [Reactor.claims, beq_iff_eq] at hclaim
            subst hclaim
            exact Option.some.inj (hc.symm.trans hmine) ▸ hremoved
          all_goals simp [hreactor, State.noticeComing]
      · next hremoved =>
          subst hstep
          exact exchange_inv hs hreactor hc hposted (by simpa using hremoved)
  · next c rest hreactor =>
      obtain ⟨call, hc, rfl⟩ := Option.map_eq_some_iff.mp hstep
      exact implEnds_inv hs hreactor hc
  · next c rest hreactor =>
      obtain ⟨call, hc, rfl⟩ := Option.map_eq_some_iff.mp hstep
      exact storeDone_inv hs hreactor hc
  · next rest hreactor =>
      obtain rfl := Option.some.inj hstep
      simp only [State.orderly, hreactor] at horderly
      apply hs.notify (.batch rest) s.leaving <;> simp [hreactor]
      simpa using horderly
  · next rest hreactor =>
      obtain rfl := Option.some.inj hstep
      apply hs.setReactor (.batch rest) s.queue <;>
        simp +contextual [hreactor, State.noticeComing]

/-! ### Every step -/

/-- A loop stores `running_` and owes a notice. -/
theorem leave_inv {s : State} (hs : Inv s)
    (hexecutes : ∀ c, s.reactor.executes c = false) : Inv s.leave where
  outside := by simp [State.leave]
  pending := by
    intro c hc
    simp only [State.leave, Reactor.calls, List.append_nil] at hc
    exact hs.pending c (List.mem_append_left _ hc)
  calls := by
    intro c call hcall
    have hok := hs.calls c call hcall
    have hcoming : s.leave.noticeComing = true := by
      simp [State.noticeComing, State.leave]
    exact { hok with
      claimed := by
        rw [show s.leave.reactor.executes c = s.reactor.executes c from
          (hexecutes c).symm]
        exact hok.claimed
      claims := by simp [State.leave]
      idle := fun _ => rfl
      stale := fun _ => hcoming
      asleep := fun _ _ => hcoming }

/-- A loop starts; no call has seen that none was running. -/
theorem enter_inv {s : State} (hs : Inv s) (hrunning : s.running = false)
    (hunseen : (s.calls.all fun call => !call.sawIdle) = true) :
    Inv { s with running := true, reactor := .loop } where
  outside := by simp
  pending := by
    intro c hc
    simp only [Reactor.calls, List.append_nil] at hc
    exact hs.pending c (List.mem_append_left _ hc)
  calls := by
    intro c call hcall
    have hok := hs.calls c call hcall
    have houtside := hs.outside.mp hrunning
    have hidle := List.all_eq_true.mp hunseen call (List.mem_of_getElem? hcall)
    have hcoming : s.noticeComing = true →
        State.noticeComing { s with running := true, reactor := .loop } = true := by
      simp [State.noticeComing, houtside]
    exact { hok with
      claimed := by simpa [houtside] using hok.claimed
      claims := by simp
      idle := fun h => by rw [h] at hidle; exact Bool.noConfusion hidle
      stale := fun hstale =>
        hcoming (hok.stale (Call.stale_of_running hstale s.running))
      asleep := fun hpc _ => hcoming (hok.asleep hpc (.inr hrunning)) }

theorem Reactor.mem_calls_of_claims {reactor : Reactor} {c : Nat}
    (h : reactor.claims c = true) : c ∈ reactor.calls := by
  cases reactor <;> simp_all

/-- A call that is made. -/
theorem CallOk.fresh {s : State} {c : Nat} (hclaims : s.reactor.claims c = false) :
    CallOk s c {} where
  direct := by simp
  late := by simp
  unclaimed := by simp
  claimed := by simp
  done := by simp
  returned := by simp
  claims h := Bool.noConfusion (hclaims.symm.trans h)
  idle := by simp
  stale := by simp
  asleep := by simp

theorem step_inv {s t : State} {a : Action} (hs : Inv s)
    (horderly : s.orderly a = true) (hstep : step s a = some t) : Inv t := by
  cases a with
  | call =>
      obtain rfl := Option.some.inj hstep
      refine ⟨hs.outside, ?_, ?_⟩
      · intro c hc
        obtain ⟨call, hcall, hposted⟩ := hs.pending c hc
        have hlt := (List.getElem?_eq_some_iff.mp hcall).1
        exact ⟨call, (List.getElem?_append_left hlt).trans hcall, hposted⟩
      · intro c call hcall
        change (s.calls ++ [({} : Call)])[c]? = some call at hcall
        rw [List.getElem?_append] at hcall
        split at hcall
        · exact (hs.calls c call hcall).congr rfl rfl rfl
        · next hfresh =>
            obtain rfl := List.mem_singleton.mp (List.mem_of_getElem? hcall)
            apply CallOk.fresh
            by_contra hclaims
            have hpending := Reactor.mem_calls_of_claims (by simpa using hclaims)
            obtain ⟨old, hold, -⟩ := hs.pending c (List.mem_append_right _ hpending)
            exact hfresh (List.getElem?_eq_some_iff.mp hold).1
  | advance c =>
      obtain ⟨call, hc, hcall⟩ := Option.bind_eq_some_iff.mp hstep
      exact callStep_inv hs hc hcall
  | spurious c =>
      obtain ⟨call, hc, hcall⟩ := Option.bind_eq_some_iff.mp hstep
      split at hcall
      · next hasleep =>
          obtain rfl := Option.some.inj hcall
          have hok := hs.calls c call hc
          refine hs.goto hc _ _ ?_ ?_
          · unfold Call.wake
            split <;> rfl
          · exact hok.wake rfl rfl hok.claims (by simp [hasleep])
      · simp at hcall
  | post =>
      obtain rfl := Option.some.inj hstep
      refine ⟨hs.outside, ?_, ?_⟩
      · simpa [Task.calls] using hs.pending
      · exact fun c call hc => (hs.calls c call hc).congr rfl rfl rfl
  | enter =>
      simp only [step] at hstep
      split at hstep
      · simp at hstep
      · next hrunning =>
          obtain rfl := Option.some.inj hstep
          exact enter_inv hs (by simpa using hrunning) horderly
  | react => exact react_inv hs horderly hstep
  | throw swallowed =>
      simp only [step] at hstep
      split at hstep
      · next rest hreactor =>
          have hback : Inv { s with reactor := .loop, queue := s.queue ++ rest } := by
            apply hs.setReactor .loop (s.queue ++ rest) <;>
              simp [hreactor, State.noticeComing]
          obtain rfl := Option.some.inj hstep
          split
          · exact hback
          · exact leave_inv hback (by simp)
      · simp at hstep
  | leave =>
      simp only [step] at hstep
      split at hstep
      · next hloop =>
          obtain rfl := Option.some.inj hstep
          exact leave_inv hs (by simp [hloop])
      · simp at hstep
  | leaveNotify =>
      simp only [step] at hstep
      split at hstep
      · simp at hstep
      · obtain rfl := Option.some.inj hstep
        exact hs.notify s.reactor (s.leaving - 1) Iff.rfl rfl (fun _ => rfl)
          (fun _ => rfl) horderly

theorem start_inv : Inv system.start where
  outside := by simp [system]
  pending := by simp [system]
  calls := by simp [system]

/-- While the runs are orderly, `remove_fd_sync` is synchronous and removes
once. -/
theorem synchronous_of_orderly (s : State)
    (hs : system.ReachableUnder (fun s a => s.orderly a = true) s) :
    Synchronous s :=
  (hs.invariant start_inv fun _ _ _ hinv horderly hstep =>
    step_inv hinv horderly hstep).synchronous

/-- A call that slept, was notified by the loop and has returned. -/
theorem synchronous_of_orderly_slept : ∃ s,
    system.ReachableUnder (fun s a => s.orderly a = true) s ∧
    s.calls[0]?.map Call.pc = some .returned ∧ Synchronous s := by
  obtain ⟨s, hs, hp⟩ := TransitionSystem.exists_reachableUnder_of_execUnder system
    (fun s a => s.orderly a = true)
    [.enter, .call, .advance 0, .advance 0, .advance 0, .advance 0, .advance 0,
      .advance 0, .react, .react, .react, .react, .react, .react, .advance 0,
      .advance 0, .advance 0, .advance 0]
    (fun s => decide (s.calls[0]?.map Call.pc = some .returned)) (by decide)
  exact ⟨s, hs, of_decide_eq_true hp, synchronous_of_orderly s hs⟩

/-- A notice between the predicate and the sleep is lost; a call that saw no loop
removes under the next one; and the fallback returns while the next loop is still
in `remove_fd_impl`. -/
theorem notSynchronous_raced :
    (∃ s, system.Reachable s ∧ ∃ call ∈ s.calls, call.pc = .asleep ∧
      call.done = true ∧ s.noticeComing = false) ∧
    (∃ s, system.Reachable s ∧ ∃ call ∈ s.calls, call.pc.executing = true ∧
      s.running = true) ∧
    (∃ s, system.Reachable s ∧ ∃ call ∈ s.calls, call.pc = .returned ∧
      call.ended = 0) ∧
    ¬ ∀ s, system.Reachable s → Synchronous s := by
  have hlost : ∃ s, system.Reachable s ∧ ∃ call ∈ s.calls, call.pc = .asleep ∧
      call.done = true ∧ s.noticeComing = false := by
    obtain ⟨s, hs, hp⟩ := TransitionSystem.exists_reachable_of_exec system
      [.enter, .call, .advance 0, .advance 0, .advance 0, .advance 0, .advance 0,
        .react, .react, .react, .react, .react, .react, .advance 0]
      (fun s => decide (∃ call ∈ s.calls, call.pc = .asleep ∧ call.done = true ∧
        s.noticeComing = false)) (by decide)
    exact ⟨s, hs, of_decide_eq_true hp⟩
  refine ⟨hlost, ?_, ?_, ?_⟩
  · obtain ⟨s, hs, hp⟩ := TransitionSystem.exists_reachable_of_exec system
      [.call, .advance 0, .enter, .advance 0]
      (fun s => decide (∃ call ∈ s.calls, call.pc.executing = true ∧
        s.running = true)) (by decide)
    exact ⟨s, hs, of_decide_eq_true hp⟩
  · obtain ⟨s, hs, hp⟩ := TransitionSystem.exists_reachable_of_exec system
      [.enter, .call, .advance 0, .advance 0, .leave, .leaveNotify, .advance 0,
        .advance 0, .advance 0, .advance 0, .advance 0, .enter, .react, .react,
        .react, .advance 0, .advance 0]
      (fun s => decide (∃ call ∈ s.calls, call.pc = .returned ∧ call.ended = 0))
      (by decide)
    exact ⟨s, hs, of_decide_eq_true hp⟩
  · intro hall
    obtain ⟨s, hs, call, hcall, hasleep, hdone, hsilent⟩ := hlost
    have hcoming := (hall s hs).notified call hcall hasleep (.inl hdone)
    exact Bool.noConfusion (hsilent.symm.trans hcoming)

end RemoveFdSync

end Iocoro
