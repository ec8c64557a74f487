/-
`co_spawn(use_awaitable)`: the entry point of the spawned task hands its outcome to a
shared `spawn_result_state`, and a single awaiter takes it from there.  The two run on
different threads; every section under the lock of the state is one step.
-/
import Iocoro.TransitionSystem

universe u v w

namespace Iocoro

namespace SpawnResult

/-- How a `spawn_result_state` keeps the value: `emplace` is `set_value`, and `take`
gives what `await_resume` moves out, or nothing where its check for a missing value
fails, with what it leaves. -/
structure Slot (T : Type u) where
  Cell : Type u
  empty : Cell
  emplace : T → Cell → Cell
  take : Cell → Option T × Cell
  take_emplace : ∀ v cell, (take (emplace v cell)).1 = some v

/-- `std::optional<T>`. -/
def Slot.optional (T : Type u) : Slot T where
  Cell := Option T
  empty := none
  emplace := fun v _ => some v
  take := fun cell => (cell, none)
  take_emplace := fun _ _ => rfl

/-- `std::monostate`: a void task keeps nothing and nothing is checked. -/
def Slot.void : Slot PUnit.{u + 1} where
  Cell := PUnit
  empty := ⟨⟩
  emplace := fun _ cell => cell
  take := fun cell => (some ⟨⟩, cell)
  take_emplace := fun _ _ => rfl

/-- Where `spawn_entry_point_with_completion` stands: in `co_await state->factory()`,
in its handler, before the completion stores, before `complete`, and before the call of
the resume callback that `complete` has taken. -/
inductive Entry (T : Type u) (Exc : Type v) (Executor : Type w) where
  | awaiting
  | caught (e : Exc)
  | invoking (r : Except Exc T)
  | completing
  | posting (ex : Executor)
  | ended

/-- It has invoked the completion. -/
def Entry.invoked {T : Type u} {Exc : Type v} {Executor : Type w} :
    Entry T Exc Executor → Bool
  | .completing | .posting _ | .ended => true
  | _ => false

/-- It has set `done`. -/
def Entry.completed {T : Type u} {Exc : Type v} {Executor : Type w} :
    Entry T Exc Executor → Bool
  | .posting _ | .ended => true
  | _ => false

/-- What `await_resume` does: return, rethrow, or fail its check. -/
inductive Result (T : Type u) (Exc : Type v) where
  | value (v : T)
  | threw (e : Exc)
  | missing

def Result.ofOutcome {T : Type u} {Exc : Type v} : Except Exc T → Result T Exc
  | .ok v => .value v
  | .error e => .threw e

/-- Where the awaiter stands: before `await_ready`, `await_suspend` or `await_resume`,
suspended, or past its `co_await`. -/
inductive Awaiter (T : Type u) (Exc : Type v) where
  | ready
  | suspending
  | suspended
  | resuming
  | returned (result : Result T Exc)
  | terminated

/-- It will not suspend any more. -/
def Awaiter.woken {T : Type u} {Exc : Type v} : Awaiter T Exc → Bool
  | .resuming | .returned _ => true
  | _ => false

/-- It has taken the outcome. -/
def Awaiter.hasReturned {T : Type u} {Exc : Type v} : Awaiter T Exc → Bool
  | .returned _ => true
  | _ => false

variable {T : Type u}

/-- `spawn_result_state` with the entry point and the awaiter.  `waiter` is never taken
back, so it tells whether the awaiter has suspended; `posts` are the executors on which
it has been posted, `queued` the posts that have not run. -/
structure State (slot : Slot T) (Exc : Type v) (Executor : Type w) where
  done : Bool := false
  waiter : Bool := false
  resume : Option Executor := none
  ep : Option Exc := none
  value : slot.Cell := slot.empty
  entry : Entry T Exc Executor := .awaiting
  invocations : Nat := 0
  posts : List Executor := []
  queued : Nat := 0
  awaiter : Awaiter T Exc := .ready

inductive Action where
  | entry
  | awaiter
  | resumption
deriving DecidableEq, Repr

variable {slot : Slot T} {Exc : Type v} {Executor : Type w}

/-- `result_state_completion` up to `complete`: `set_value` or `set_exception`. -/
def State.store (s : State slot Exc Executor) :
    Except Exc T → State slot Exc Executor
  | .ok v => { s with value := slot.emplace v s.value }
  | .error e => { s with ep := some e }

/-- What `await_resume` makes of what it reads under the lock. -/
def State.result (s : State slot Exc Executor) : Result T Exc :=
  match s.ep with
  | some e => .threw e
  | none =>
      match (slot.take s.value).1 with
      | some v => .value v
      | none => .missing

/-- The steps of the entry point of a task with the given outcome.  The completion is
called from the `try` block or from its handler, and what it throws stays in
`safe_invoke_completion`. -/
def entryStep (outcome : Except Exc T) (s : State slot Exc Executor) :
    Option (State slot Exc Executor) :=
  match s.entry with
  | .awaiting => some { s with
      entry := match outcome with
        | .ok v => .invoking (.ok v)
        | .error e => .caught e }
  | .caught e => some { s with entry := .invoking (.error e) }
  | .invoking r => some { s.store r with
      entry := .completing, invocations := s.invocations + 1 }
  | .completing =>
      if s.done then some { s with entry := .ended }
      else some { s with
        done := true, resume := none
        entry := match s.resume with
          | some ex => .posting ex
          | none => .ended }
  | .posting ex => some { s with
      entry := .ended, posts := s.posts ++ [ex], queued := s.queued + 1 }
  | .ended => none

/-- The steps of an awaiter whose coroutine runs on `ex`. -/
def awaiterStep (ex : Executor) (s : State slot Exc Executor) :
    Option (State slot Exc Executor) :=
  match s.awaiter with
  | .ready => some { s with awaiter := if s.done then .resuming else .suspending }
  | .suspending =>
      if s.done then some { s with awaiter := .resuming }
      else if s.waiter then some { s with awaiter := .terminated }
      else some { s with waiter := true, resume := some ex, awaiter := .suspended }
  | .resuming => some { s with
      value := (slot.take s.value).2, awaiter := .returned s.result }
  | _ => none

/-- The executor runs the posted resumption. -/
def resumptionStep (s : State slot Exc Executor) : Option (State slot Exc Executor) :=
  match s.awaiter, s.queued with
  | .suspended, n + 1 => some { s with queued := n, awaiter := .resuming }
  | _, _ => none

def step (ex : Executor) (outcome : Except Exc T) (s : State slot Exc Executor) :
    Action → Option (State slot Exc Executor)
  | .entry => entryStep outcome s
  | .awaiter => awaiterStep ex s
  | .resumption => resumptionStep s

def system (slot : Slot T) (ex : Executor) (outcome : Except Exc T) :
    TransitionSystem (State slot Exc Executor) Action where
  start := {}
  step := step ex outcome

/-- The completion is invoked at most once, and exactly once when the entry point has
ended; only an awaiter that suspended is posted, once and on its own executor, and it
has been when the entry point has ended; what it gets is the outcome, and no check
fails. -/
structure Exact (ex : Executor) (outcome : Except Exc T)
    (s : State slot Exc Executor) : Prop where
  invocations : s.invocations ≤ 1 ∧ (s.entry = .ended → s.invocations = 1)
  suspended : s.awaiter = .suspended → s.waiter = true
  posts : s.posts = [] ∨ s.posts = [ex] ∧ s.waiter = true
  posted : s.entry = .ended → s.posts = if s.waiter then [ex] else []
  returned : ∀ result, s.awaiter = .returned result → result = .ofOutcome outcome
  checked : s.awaiter ≠ .terminated

/-- Both sides are at their ends. -/
structure Finished (ex : Executor) (outcome : Except Exc T)
    (s : State slot Exc Executor) : Prop extends Exact ex outcome s where
  entry : s.entry = .ended
  awaiter : s.awaiter = .returned (.ofOutcome outcome)
  queued : s.queued = 0

/-! ### Invariant -/

/-- The way of the resumption: the awaiter has not suspended, it sleeps with its
callback stored, the callback is taken, it is posted, and it has run. -/
inductive Wait (ex : Executor) : Bool → Option Executor → Entry T Exc Executor →
    List Executor → Nat → Awaiter T Exc → Prop
  | awake {entry : Entry T Exc Executor} {awaiter : Awaiter T Exc}
      (hentry : ∀ ex', entry ≠ .posting ex') (hasleep : awaiter ≠ .suspended)
      (halive : awaiter ≠ .terminated) : Wait ex false none entry [] 0 awaiter
  | asleep {entry : Entry T Exc Executor} (hentry : entry.completed = false) :
      Wait ex true (some ex) entry [] 0 .suspended
  | taken : Wait ex true none (.posting ex) [] 0 .suspended
  | posted : Wait ex true none .ended [ex] 1 .suspended
  | resumed {awaiter : Awaiter T Exc} (hwoken : awaiter.woken = true) :
      Wait ex true none .ended [ex] 0 awaiter

structure Inv (ex : Executor) (outcome : Except Exc T)
    (s : State slot Exc Executor) : Prop where
  caught : ∀ e, s.entry = .caught e → outcome = .error e
  invoking : ∀ r, s.entry = .invoking r → outcome = r
  invocations : s.invocations = s.entry.invoked.toNat
  done : s.done = s.entry.completed
  fresh : s.entry.invoked = false → s.ep = none
  stored : s.entry.invoked = true → s.awaiter.hasReturned = false →
    s.result = .ofOutcome outcome
  woken : s.awaiter.woken = true → s.done = true
  returned : ∀ result, s.awaiter = .returned result → result = .ofOutcome outcome
  wait : Wait ex s.waiter s.resume s.entry s.posts s.queued s.awaiter

variable {ex : Executor} {outcome : Except Exc T}

theorem start_inv : Inv ex outcome (system slot ex outcome).start where
  caught := nofun
  invoking := nofun
  invocations := rfl
  done := rfl
  fresh := fun _ => rfl
  stored := nofun
  woken := nofun
  returned := nofun
  wait := .awake nofun nofun nofun

/-- What the completion has stored is what `await_resume` finds. -/
theorem result_store {s : State slot Exc Executor} (hs : s.ep = none)
    (r : Except Exc T) : (s.store r).result = .ofOutcome r := by
  cases r with
  | ok v =>
      simp only [State.result, State.store, hs, slot.take_emplace, Result.ofOutcome]
  | error e => rfl

/-- A task that has not ended leaves the awaiter where it is, awake or asleep. -/
theorem Wait.move {waiter : Bool} {resume : Option Executor}
    {before after : Entry T Exc Executor} {posts : List Executor} {queued : Nat}
    {awaiter : Awaiter T Exc}
    (hs : Wait ex waiter resume before posts queued awaiter)
    (hbefore : before.completed = false) (hafter : after.completed = false) :
    Wait ex waiter resume after posts queued awaiter := by
  cases hs with
  | awake hentry hasleep halive =>
      refine .awake ?_ hasleep halive
      rintro ex' rfl
      nomatch hafter
  | asleep => exact .asleep hafter
  | taken | posted | resumed => nomatch hbefore

section Wait

variable {waiter : Bool} {resume : Option Executor} {entry : Entry T Exc Executor}
  {posts : List Executor} {queued : Nat} {awaiter : Awaiter T Exc}

/-- `complete` takes the callback of an awaiter that sleeps. -/
theorem Wait.complete (hs : Wait ex waiter resume .completing posts queued awaiter) :
    Wait ex waiter none (match resume with
      | some ex' => (.posting ex' : Entry T Exc Executor)
      | none => .ended) posts queued awaiter := by
  cases hs with
  | awake _ hasleep halive => exact .awake nofun hasleep halive
  | asleep => exact .taken

/-- The callback posts the awaiter on the executor that it has stored. -/
theorem Wait.post {ex' : Executor}
    (hs : Wait ex waiter resume (.posting ex' : Entry T Exc Executor) posts queued
      awaiter) :
    Wait ex waiter resume (.ended : Entry T Exc Executor) (posts ++ [ex']) (queued + 1)
      awaiter := by
  cases hs with
  | awake hentry => exact absurd rfl (hentry ex')
  | asleep hentry => nomatch hentry
  | taken => exact .posted

/-- An awaiter that does not sleep goes on without going to sleep. -/
theorem Wait.walk (hs : Wait ex waiter resume entry posts queued awaiter)
    {next : Awaiter T Exc} (hasleep : awaiter ≠ .suspended)
    (hwoken : awaiter.woken = true → next.woken = true)
    (hnext : next ≠ .suspended) (halive : next ≠ .terminated) :
    Wait ex waiter resume entry posts queued next := by
  cases hs with
  | awake hentry => exact .awake hentry hnext halive
  | asleep | taken | posted => exact absurd rfl hasleep
  | resumed h => exact .resumed (hwoken h)

/-- The first `await_suspend` finds no waiter. -/
theorem Wait.sleep (hs : Wait ex waiter resume entry posts queued .suspending)
    (hentry : entry.completed = false) :
    waiter = false ∧
      Wait ex true (some ex) entry posts queued (.suspended : Awaiter T Exc) := by
  cases hs with
  | awake => exact ⟨rfl, .asleep hentry⟩
  | resumed hwoken => nomatch hwoken

/-- Only the one post wakes it. -/
theorem Wait.wake (hs : Wait ex waiter resume entry posts (queued + 1) .suspended) :
    entry = .ended ∧
      Wait ex waiter resume entry posts queued (.resuming : Awaiter T Exc) := by
  cases hs with
  | posted => exact ⟨rfl, .resumed rfl⟩

end Wait

/-! ### The steps -/

/-- Before the completion is invoked the entry point only moves. -/
theorem Inv.entry {s : State slot Exc Executor} (hs : Inv ex outcome s)
    {entry : Entry T Exc Executor} (hbefore : s.entry.invoked = false)
    (hafter : entry.invoked = false)
    (hcaught : ∀ e, entry = .caught e → outcome = .error e)
    (hinvoking : ∀ r, entry = .invoking r → outcome = r) :
    Inv ex outcome { s with entry := entry } := by
  have hopen : ∀ {entry : Entry T Exc Executor}, entry.invoked = false →
      entry.completed = false := by
    intro entry hentry
    cases entry with
    | awaiting | caught | invoking => rfl
    | completing | posting | ended => nomatch hentry
  exact { hs with
    caught := hcaught
    invoking := hinvoking
    invocations := by
      rw [hs.invocations, hbefore]
      change _ = entry.invoked.toNat
      rw [hafter]
    done := by
      change s.done = entry.completed
      rw [hs.done, hopen hbefore, hopen hafter]
    fresh := fun _ => hs.fresh hbefore
    stored := fun htrue => by cases htrue.symm.trans hafter
    wait := hs.wait.move (hopen hbefore) (hopen hafter) }

theorem entryStep_inv {s t : State slot Exc Executor} (hs : Inv ex outcome s)
    (hstep : entryStep outcome s = some t) : Inv ex outcome t := by
  have hdone := hs.done
  have hwait := hs.wait
  cases hentry : s.entry with
  | awaiting =>
      simp only [entryStep, hentry] at hstep
      cases hstep
      refine hs.entry (by rw [hentry]; rfl) (by split <;> rfl) ?_ ?_
      · intro e he
        split at he
        · nomatch he
        · cases he
          rfl
      · intro r hr
        split at hr
        · cases hr
          rfl
        · nomatch hr
  | caught e =>
      simp only [entryStep, hentry] at hstep
      cases hstep
      refine hs.entry (by rw [hentry]; rfl) rfl nofun fun r hr => ?_
      cases hr
      exact hs.caught e hentry
  | invoking r =>
      simp only [entryStep, hentry] at hstep
      cases hstep
      rw [hentry] at hdone hwait
      have hresult : (s.store r).result = .ofOutcome outcome := by
        rw [result_store (hs.fresh (by rw [hentry]; rfl)), hs.invoking r hentry]
      have hinvocations : s.invocations + 1 = 1 := by
        rw [hs.invocations, hentry]
        rfl
      have hmoved : Wait ex s.waiter s.resume (.completing : Entry T Exc Executor)
          s.posts s.queued s.awaiter := hwait.move rfl rfl
      cases r with
      | ok v => exact ⟨nofun, nofun, hinvocations, hdone, nofun, fun _ _ => hresult,
          hs.woken, hs.returned, hmoved⟩
      | error e => exact ⟨nofun, nofun, hinvocations, hdone, nofun, fun _ _ => hresult,
          hs.woken, hs.returned, hmoved⟩
  | completing =>
      rw [hentry] at hdone hwait
      simp only [entryStep, hentry, hdone, Entry.completed, Bool.false_eq_true,
        if_false] at hstep
      cases hstep
      exact { hs with
        caught := fun e he => by split at he <;> nomatch he
        invoking := fun r hr => by split at hr <;> nomatch hr
        invocations := by
          rw [hs.invocations, hentry]
          split <;> rfl
        done := by split <;> rfl
        fresh := fun hfresh => by split at hfresh <;> nomatch hfresh
        stored := fun _ => hs.stored (by rw [hentry]; rfl)
        woken := fun _ => rfl
        wait := hwait.complete }
  | posting ex' =>
      rw [hentry] at hwait
      simp only [entryStep, hentry] at hstep
      cases hstep
      exact { hs with
        caught := nofun
        invoking := nofun
        invocations := by
          rw [hs.invocations, hentry]
          rfl
        done := by
          rw [hdone, hentry]
          rfl
        fresh := nofun
        stored := fun _ => hs.stored (by rw [hentry]; rfl)
        wait := hwait.post }
  | ended =>
      simp only [entryStep, hentry] at hstep
      nomatch hstep

/-- The awaiter moves on, and has not taken the outcome. -/
theorem Inv.walk {s : State slot Exc Executor} (hs : Inv ex outcome s)
    {next : Awaiter T Exc} (hbefore : s.awaiter.hasReturned = false)
    (hafter : next.hasReturned = false) (hasleep : s.awaiter ≠ .suspended)
    (hwoken : next.woken = true → s.done = true)
    (hstays : s.awaiter.woken = true → next.woken = true)
    (hnext : next ≠ .suspended) (halive : next ≠ .terminated) :
    Inv ex outcome { s with awaiter := next } :=
  { hs with
    stored := fun hinvoked _ => hs.stored hinvoked hbefore
    woken := hwoken
    returned := by
      rintro result rfl
      nomatch hafter
    wait := hs.wait.walk hasleep hstays hnext halive }

theorem awaiterStep_inv {s t : State slot Exc Executor} (hs : Inv ex outcome s)
    (hstep : awaiterStep ex s = some t) : Inv ex outcome t := by
  cases hawaiter : s.awaiter with
  | ready =>
      simp only [awaiterStep, hawaiter] at hstep
      cases hstep
      refine hs.walk (by rw [hawaiter]; rfl) (by split <;> rfl)
        (by rw [hawaiter]; nofun) (fun hwoken => ?_) (by rw [hawaiter]; nofun)
        (by split <;> nofun) (by split <;> nofun)
      split at hwoken
      · assumption
      · nomatch hwoken
  | suspending =>
      have hwait := hs.wait
      rw [hawaiter] at hwait
      simp only [awaiterStep, hawaiter] at hstep
      split at hstep
      · next hdone =>
          cases hstep
          exact hs.walk (by rw [hawaiter]; rfl) rfl (by rw [hawaiter]; nofun)
            (fun _ => hdone) (fun _ => rfl) nofun nofun
      · next hdone =>
          rw [hs.done, Bool.not_eq_true] at hdone
          obtain ⟨hwaiter, hasleep⟩ := hwait.sleep hdone
          rw [hwaiter, if_neg nofun] at hstep
          cases hstep
          exact { hs with
            stored := fun hinvoked _ => hs.stored hinvoked (by rw [hawaiter]; rfl)
            woken := nofun
            returned := nofun
            wait := hasleep }
  | resuming =>
      simp only [awaiterStep, hawaiter] at hstep
      cases hstep
      have hdone := hs.woken (by rw [hawaiter]; rfl)
      have hinvoked : s.entry.invoked = true := by
        rw [hs.done] at hdone
        cases hentry : s.entry with
        | completing | posting | ended => rfl
        | awaiting | caught | invoking =>
            rw [hentry] at hdone
            nomatch hdone
      have hresult := hs.stored hinvoked (by rw [hawaiter]; rfl)
      exact { hs with
        stored := nofun
        woken := fun _ => hdone
        returned := by
          rintro result ⟨⟩
          exact hresult
        wait := hs.wait.walk (by rw [hawaiter]; nofun) (fun _ => rfl) nofun nofun }
  | suspended | returned | terminated =>
      simp only [awaiterStep, hawaiter] at hstep
      nomatch hstep

theorem resumptionStep_inv {s t : State slot Exc Executor} (hs : Inv ex outcome s)
    (hstep : resumptionStep s = some t) : Inv ex outcome t := by
  rw [resumptionStep] at hstep
  split at hstep
  · next n hawaiter hqueued =>
      cases hstep
      have hwait := hs.wait
      rw [hawaiter, hqueued] at hwait
      obtain ⟨hentry, hresumed⟩ := hwait.wake
      exact { hs with
        stored := fun hinvoked _ => hs.stored hinvoked (by rw [hawaiter]; rfl)
        woken := fun _ => by
          rw [hs.done, hentry]
          rfl
        returned := nofun
        wait := hresumed }
  · nomatch hstep

theorem step_inv {s t : State slot Exc Executor} {a : Action} (hs : Inv ex outcome s)
    (hstep : step ex outcome s a = some t) : Inv ex outcome t := by
  cases a with
  | entry => exact entryStep_inv hs hstep
  | awaiter => exact awaiterStep_inv hs hstep
  | resumption => exact resumptionStep_inv hs hstep

/-! ### Delivery -/

theorem Wait.posts {waiter : Bool} {resume : Option Executor}
    {entry : Entry T Exc Executor} {posts : List Executor} {queued : Nat}
    {awaiter : Awaiter T Exc} (hs : Wait ex waiter resume entry posts queued awaiter) :
    (posts = [] ∨ posts = [ex] ∧ waiter = true) ∧
      (entry = .ended → posts = if waiter then [ex] else []) := by
  cases hs with
  | awake => exact ⟨.inl rfl, fun _ => rfl⟩
  | asleep hentry =>
      refine ⟨.inl rfl, ?_⟩
      rintro rfl
      nomatch hentry
  | taken => exact ⟨.inl rfl, nofun⟩
  | posted | resumed => exact ⟨.inr ⟨rfl, rfl⟩, fun _ => rfl⟩

theorem Wait.awaiter {waiter : Bool} {resume : Option Executor}
    {entry : Entry T Exc Executor} {posts : List Executor} {queued : Nat}
    {awaiter : Awaiter T Exc} (hs : Wait ex waiter resume entry posts queued awaiter) :
    (awaiter = .suspended → waiter = true) ∧ awaiter ≠ .terminated := by
  cases hs with
  | awake _ hasleep halive => exact ⟨fun h => absurd h hasleep, halive⟩
  | asleep | taken | posted => exact ⟨fun _ => rfl, nofun⟩
  | resumed hwoken =>
      refine ⟨fun _ => rfl, ?_⟩
      rintro rfl
      nomatch hwoken

theorem Inv.exact {s : State slot Exc Executor} (hs : Inv ex outcome s) :
    Exact ex outcome s where
  invocations := by
    rw [hs.invocations]
    refine ⟨Bool.toNat_le _, fun hentry => ?_⟩
    rw [hentry]
    rfl
  suspended := hs.wait.awaiter.1
  posts := hs.wait.posts.1
  posted := hs.wait.posts.2
  returned := hs.returned
  checked := hs.wait.awaiter.2

/-- The steps that are left to the entry point, with the post as one to come. -/
def Entry.work : Entry T Exc Executor → Nat
  | .awaiting => 6
  | .caught _ => 5
  | .invoking _ => 4
  | .completing => 3
  | .posting _ => 2
  | .ended => 0

def Awaiter.work : Awaiter T Exc → Nat
  | .ready => 4
  | .suspending => 3
  | .suspended => 2
  | .resuming => 1
  | .returned _ | .terminated => 0

def State.work (s : State slot Exc Executor) : Nat :=
  s.entry.work + s.queued + s.awaiter.work

theorem step_work {s t : State slot Exc Executor} {a : Action}
    (hstep : step ex outcome s a = some t) : t.work < s.work := by
  cases a with
  | entry =>
      change entryStep outcome s = some t at hstep
      cases hentry : s.entry with
      | awaiting =>
          simp only [entryStep, hentry] at hstep
          cases hstep
          cases outcome <;> simp [State.work, Entry.work, hentry]
      | caught e =>
          simp only [entryStep, hentry] at hstep
          cases hstep
          simp [State.work, Entry.work, hentry]
      | invoking r =>
          simp only [entryStep, hentry] at hstep
          cases hstep
          cases r <;> simp [State.work, State.store, Entry.work, hentry]
      | completing =>
          simp only [entryStep, hentry] at hstep
          split at hstep
          · cases hstep
            simp [State.work, Entry.work, hentry]
          · cases hstep
            cases hresume : s.resume <;> simp [State.work, Entry.work, hentry]
      | posting ex' =>
          simp only [entryStep, hentry] at hstep
          cases hstep
          simp only [State.work, Entry.work, hentry]
          omega
      | ended =>
          simp only [entryStep, hentry] at hstep
          nomatch hstep
  | awaiter =>
      change awaiterStep ex s = some t at hstep
      cases hawaiter : s.awaiter with
      | ready =>
          simp only [awaiterStep, hawaiter] at hstep
          cases hstep
          cases hdone : s.done <;> simp [State.work, Awaiter.work, hawaiter]
      | suspending =>
          simp only [awaiterStep, hawaiter] at hstep
          split at hstep
          · cases hstep
            simp [State.work, Awaiter.work, hawaiter]
          · split at hstep
            · cases hstep
              simp [State.work, Awaiter.work, hawaiter]
            · cases hstep
              simp [State.work, Awaiter.work, hawaiter]
      | resuming =>
          simp only [awaiterStep, hawaiter] at hstep
          cases hstep
          simp [State.work, Awaiter.work, hawaiter]
      | suspended | returned | terminated =>
          simp only [awaiterStep, hawaiter] at hstep
          nomatch hstep
  | resumption =>
      change resumptionStep s = some t at hstep
      rw [resumptionStep] at hstep
      split at hstep
      · next n hawaiter hqueued =>
          cases hstep
          simp only [State.work, Awaiter.work, hawaiter, hqueued]
          omega
      · nomatch hstep

/-- An awaiter that sleeps when the entry point has ended has been posted. -/
theorem Wait.posted_of_ended {waiter : Bool} {resume : Option Executor}
    {posts : List Executor} {queued : Nat}
    (hs : Wait ex waiter resume (.ended : Entry T Exc Executor) posts queued
      (.suspended : Awaiter T Exc)) : queued = 1 := by
  cases hs with
  | awake _ hasleep => exact absurd rfl hasleep
  | asleep hentry => nomatch hentry
  | posted => rfl
  | resumed hwoken => nomatch hwoken

/-- A post is left only for one that sleeps. -/
theorem Wait.queued {waiter : Bool} {resume : Option Executor}
    {entry : Entry T Exc Executor} {posts : List Executor} {queued : Nat}
    {awaiter : Awaiter T Exc} (hs : Wait ex waiter resume entry posts queued awaiter)
    (hasleep : awaiter ≠ .suspended) : queued = 0 := by
  cases hs with
  | awake | resumed => rfl
  | asleep | taken | posted => exact absurd rfl hasleep

/-- Until both sides are at their ends one of them can move. -/
theorem Inv.live {s : State slot Exc Executor} (hs : Inv ex outcome s) :
    Finished ex outcome s ∨ ∃ a t, step ex outcome s a = some t := by
  cases hentry : s.entry with
  | completing =>
      refine .inr ⟨.entry, ?_⟩
      simp only [step, entryStep, hentry]
      split <;> exact ⟨_, rfl⟩
  | awaiting | caught | invoking | posting =>
      refine .inr ⟨.entry, ?_⟩
      simp only [step, entryStep, hentry]
      exact ⟨_, rfl⟩
  | ended =>
      cases hawaiter : s.awaiter with
      | suspending =>
          refine .inr ⟨.awaiter, ?_⟩
          simp only [step, awaiterStep, hawaiter]
          split
          · exact ⟨_, rfl⟩
          · split <;> exact ⟨_, rfl⟩
      | ready | resuming =>
          refine .inr ⟨.awaiter, ?_⟩
          simp only [step, awaiterStep, hawaiter]
          exact ⟨_, rfl⟩
      | suspended =>
          have hwait := hs.wait
          rw [hentry, hawaiter] at hwait
          refine .inr ⟨.resumption, ?_⟩
          simp only [step, resumptionStep, hawaiter, hwait.posted_of_ended]
          exact ⟨_, rfl⟩
      | returned result =>
          refine .inl { hs.exact with
            entry := hentry
            awaiter := ?_
            queued := hs.wait.queued (by rw [hawaiter]; nofun) }
          rw [hawaiter, hs.returned result hawaiter]
      | terminated => exact absurd hawaiter hs.exact.checked

/-- `co_spawn(use_awaitable)` delivers the outcome of its task once: in every run the
completion, the posts and what the awaiter gets are exact, and however the two threads
go on, they come to an end at which the awaiter has the outcome. -/
theorem spawnResult_exact (slot : Slot T) (ex : Executor) (outcome : Except Exc T)
    {s : State slot Exc Executor} (hs : (system slot ex outcome).Reachable s) :
    Exact ex outcome s ∧
      (system slot ex outcome).Inevitable (fun _ => True) (Finished ex outcome) s := by
  have hinv : Inv ex outcome s := hs.invariant start_inv fun _ _ _ h hstep =>
    step_inv h hstep
  refine ⟨hinv.exact, TransitionSystem.Inevitable.of_work (Inv ex outcome) State.work
    (fun _ _ _ h _ hstep => step_inv h hstep) (fun s h => ?_)
    (fun _ _ _ _ _ hstep => step_work hstep) hinv⟩
  exact h.live.imp id fun ⟨a, t, hstep⟩ => ⟨a, t, trivial, hstep⟩

/-- The awaiter suspends before `complete` and is posted. -/
def suspendsLate : List Action :=
  [.awaiter, .entry, .entry, .awaiter, .entry, .entry, .resumption, .awaiter]

/-- The value has been returned after a suspension and one post. -/
def returnedAfterPost (s : State (Slot.optional Nat) Unit Nat) : Bool :=
  s.waiter && s.posts == [3] &&
    match s.awaiter with
    | .returned (.value v) => v == 7
    | _ => false

theorem spawnResult_suspendsLate :
    ∃ s : State (Slot.optional Nat) Unit Nat,
      returnedAfterPost s = true ∧ Exact 3 (.ok 7) s := by
  obtain ⟨s, hs, hend⟩ := TransitionSystem.exists_reachable_of_exec
    (system (Slot.optional Nat) 3 (.ok 7)) suspendsLate returnedAfterPost
    (by decide)
  exact ⟨s, hend, (spawnResult_exact (Slot.optional Nat) 3 (.ok 7) hs).1⟩

end SpawnResult

end Iocoro
