/-
`when_all`: runners store their outcomes in a shared state and count down, and the
parent reads all of them from it.  The overloads differ in where the values are kept;
the counting and the wait are the same for all of them.
-/
import Mathlib.Data.Fintype.Card
import Mathlib.Algebra.Order.BigOperators.Group.Finset
import Mathlib.Logic.Function.Basic
import Iocoro.WhenAny

universe u v

namespace Iocoro

namespace WhenAll

open WhenAny (Waiter)

/-- How the shared state of an overload keeps its values: `emplace` is the store in
`set_value`, `spoil` what a throwing constructor leaves of it, and `get` the value of
a task, or nothing where the check for a missing value would fail. -/
structure Overload {n : Nat} (Value : Fin (n + 1) → Type u) where
  Cell : Type u
  empty : Cell
  emplace : ∀ i, Value i → Cell → Cell
  canThrow : Bool
  spoil : Fin (n + 1) → Cell → Cell
  get : ∀ i, Cell → Option (Value i)
  get_emplace : ∀ i v cell, get i (emplace i v cell) = some v
  get_emplace_ne : ∀ i j v cell, j ≠ i → get j (emplace i v cell) = get j cell
  get_spoil_ne : ∀ i j cell, j ≠ i → get j (spoil i cell) = get j cell

/-- `when_all(std::vector<awaitable<T>>)` for a non-void `T`. -/
def container (n : Nat) (T : Type u) :
    Overload (fun _ : Fin (n + 1) => T) where
  Cell := Vector (Option T) (n + 1)
  empty := Vector.replicate (n + 1) none
  emplace := fun i v values => values.set i (some v)
  canThrow := true
  spoil := fun i values => values.set i none
  get := fun i values => values[i]
  get_emplace := by
    intro i v values
    simp
  get_emplace_ne := by
    intro i j v values hne
    exact Vector.getElem_set_ne i.isLt j.isLt (fun heq => hne (Fin.ext heq.symm))
  get_spoil_ne := by
    intro i j values hne
    exact Vector.getElem_set_ne i.isLt j.isLt (fun heq => hne (Fin.ext heq.symm))

/-- `when_all(std::vector<awaitable<void>>)`: no value is kept. -/
def containerVoid (n : Nat) :
    Overload (fun _ : Fin (n + 1) => PUnit.{u + 1}) where
  Cell := PUnit
  empty := ⟨⟩
  emplace := fun _ _ _ => ⟨⟩
  canThrow := false
  spoil := fun _ _ => ⟨⟩
  get := fun _ _ => some ⟨⟩
  get_emplace := fun _ _ value => congrArg some (PUnit.eq_punit value).symm
  get_emplace_ne := fun _ _ _ _ _ => rfl
  get_spoil_ne := fun _ _ _ _ => rfl

/-- Where a runner stands: in its task, after it, after the store of the outcome, in
`complete` since its `try_complete` returned true, about to resume the parent, and at
its end. -/
inductive Runner (Exc : Type v) (T : Type u) where
  | running
  | finished (outcome : Except Exc T)
  | stored (outcome : Except Exc T)
  | completing (outcome : Except Exc T)
  | resuming (outcome : Except Exc T)
  | ended (outcome : Except Exc T)

/-- It has performed its `try_complete`. -/
def Runner.counted {Exc : Type v} {T : Type u} : Runner Exc T → Bool
  | .running | .finished _ | .stored _ => false
  | _ => true

/-- The outcome it has stored. -/
def Runner.outcome {Exc : Type v} {T : Type u} :
    Runner Exc T → Option (Except Exc T)
  | .running | .finished _ => none
  | .stored outcome | .completing outcome | .resuming outcome | .ended outcome =>
      some outcome

def Runner.isCompleting {Exc : Type v} {T : Type u} : Runner Exc T → Bool
  | .completing _ => true
  | _ => false

def Runner.isResuming {Exc : Type v} {T : Type u} : Runner Exc T → Bool
  | .resuming _ => true
  | _ => false

theorem Runner.outcome_of_counted {Exc : Type v} {T : Type u} {runner : Runner Exc T}
    (hcounted : runner.counted = true) : ∃ outcome, runner.outcome = some outcome := by
  cases runner <;> simp_all [Runner.counted, Runner.outcome]

/-- What `when_all` gives: all values, an exception, or the failure of a check for a
missing value. -/
inductive Result {n : Nat} (Value : Fin (n + 1) → Type u) (Exc : Type v) where
  | values (vs : ∀ i, Value i)
  | threw (e : Exc)
  | missing

/-- Where the parent stands, as in `when_any`: the two looks at `is_done`, the store
of the executor, the exchange of `waiter_addr`, and the read under the lock.
`terminated` is the failure of one of the other checks. -/
inductive ParentPc {n : Nat} (Value : Fin (n + 1) → Type u) (Exc : Type v) where
  | ready
  | suspend
  | storeEx
  | exchange
  | suspended
  | read
  | returned (result : Result Value Exc)
  | terminated

/-- The parent has gone on after its `co_await`. -/
def ParentPc.proceeded {n : Nat} {Value : Fin (n + 1) → Type u} {Exc : Type v} :
    ParentPc Value Exc → Bool
  | .read | .returned _ => true
  | _ => false

variable {n : Nat} {Value : Fin (n + 1) → Type u}

/-- The shared state, the runners and the parent; `thrown` records the exceptions
that `set_exception` was called with, in the order of its locked sections. -/
structure State (o : Overload Value) (Exc : Type v) where
  remaining : Nat := n + 1
  cell : o.Cell := o.empty
  firstEp : Option Exc := none
  ex : Bool := false
  waiter : Waiter := .null
  runner : ∀ i, Runner Exc (Value i) := fun _ => .running
  parent : ParentPc Value Exc := .ready
  thrown : List (Fin (n + 1) × Exc) := []

inductive Action {n : Nat} (Value : Fin (n + 1) → Type u) (Exc : Type v) where
  | finish (i : Fin (n + 1)) (outcome : Except Exc (Value i))
  | store (i : Fin (n + 1))
  | storeThrows (i : Fin (n + 1)) (e : Exc)
  | tryComplete (i : Fin (n + 1))
  | complete (i : Fin (n + 1))
  | resume (i : Fin (n + 1))
  | parent

variable {o : Overload Value} {Exc : Type v}

def State.setRunner (s : State o Exc) (i : Fin (n + 1))
    (runner : Runner Exc (Value i)) : State o Exc :=
  { s with runner := Function.update s.runner i runner }

/-- `set_value` or `set_exception`. -/
def State.store (s : State o Exc) (i : Fin (n + 1)) :
    Except Exc (Value i) → State o Exc
  | .ok v => { s with cell := o.emplace i v s.cell }
  | .error e =>
      { s with firstEp := some (s.firstEp.getD e), thrown := s.thrown ++ [(i, e)] }

/-- `when_all_collect_variadic`, or the loop of the container overload. -/
def Overload.collect (o : Overload Value) (cell : o.Cell) : Option (∀ i, Value i) :=
  if hall : ∀ i, (o.get i cell).isSome = true then
    some fun i => (o.get i cell).get (hall i)
  else none

/-- What the parent makes of the exception and the values that it reads. -/
def State.collect (s : State o Exc) : Result Value Exc :=
  match s.firstEp with
  | some e => .threw e
  | none =>
      match o.collect s.cell with
      | some vs => .values vs
      | none => .missing

/-- The steps of a runner.  A throwing store is caught like a throwing task, and the
loop in `complete` ends with one exchange of `waiter_addr`. -/
def run (s : State o Exc) : Action Value Exc → Option (State o Exc)
  | .finish i outcome =>
      match s.runner i with
      | .running => some (s.setRunner i (.finished outcome))
      | _ => none
  | .store i =>
      match s.runner i with
      | .finished outcome =>
          some ((s.store i outcome).setRunner i (.stored outcome))
      | _ => none
  | .storeThrows i e =>
      match s.runner i with
      | .finished (.ok _) =>
          if o.canThrow then
            some { s.setRunner i (.finished (.error e)) with cell := o.spoil i s.cell }
          else none
      | _ => none
  | .tryComplete i =>
      match s.runner i with
      | .stored outcome => some { s.setRunner i
          (if s.remaining = 1 then .completing outcome else .ended outcome) with
            remaining := s.remaining - 1 }
      | _ => none
  | .complete i =>
      match s.runner i with
      | .completing outcome => some { s.setRunner i
          (if s.waiter = .parent then .resuming outcome else .ended outcome) with
            waiter := .sentinel }
      | _ => none
  | .resume i =>
      match s.runner i with
      | .resuming outcome => some { s.setRunner i (.ended outcome) with
          parent := if s.ex then .read else .terminated }
      | _ => none
  | .parent => none

/-- `is_done`. -/
def State.isDone (s : State o Exc) : Bool := s.remaining == 0

/-- The steps of the parent. -/
def proceed (s : State o Exc) : Option (State o Exc) :=
  match s.parent with
  | .ready => some { s with parent := if s.isDone then .read else .suspend }
  | .suspend => some { s with parent := if s.isDone then .read else .storeEx }
  | .storeEx => some { s with ex := true, parent := .exchange }
  | .exchange =>
      match s.waiter with
      | .null => some { s with waiter := .parent, parent := .suspended }
      | .sentinel => some { s with parent := .read }
      | .parent => some { s with parent := .terminated }
  | .read => some { s with parent := .returned s.collect }
  | _ => none

def step (s : State o Exc) (a : Action Value Exc) : Option (State o Exc) :=
  match a with
  | .parent => proceed s
  | _ => run s a

def system (o : Overload Value) (Exc : Type v) :
    TransitionSystem (State o Exc) (Action Value Exc) where
  start := {}
  step := step

/-- The parent goes on after all runners have counted down; it returns all values, in
order, or throws the exception that was stored first, and fails no check. -/
structure Correct (s : State o Exc) : Prop where
  proceeded : s.parent.proceeded = true → ∀ i, (s.runner i).counted = true
  logged : ∀ i e, (i, e) ∈ s.thrown ↔ (s.runner i).outcome = some (.error e)
  values : ∀ result, s.parent = .returned result →
    (∀ i e, (s.runner i).outcome ≠ some (.error e)) →
    ∃ vs, result = .values vs ∧ ∀ i, (s.runner i).outcome = some (.ok (vs i))
  threw : ∀ result, s.parent = .returned result →
    ∀ i e, (s.runner i).outcome = some (.error e) →
    ∃ first rest, s.thrown = first :: rest ∧ result = .threw first.2
  checked : s.parent ≠ .terminated ∧ s.parent ≠ .returned .missing
  ends : (∀ i, s.runner i ≠ .running) →
    (system o Exc).Inevitable (fun _ => True)
      (fun t => ∃ result, t.parent = .returned result) s

/-! ### Invariant -/

/-- The runners that have not counted down. -/
def State.uncounted (s : State o Exc) : Finset (Fin (n + 1)) :=
  Finset.univ.filter fun i => (s.runner i).counted = false

/-- The shared state against the runners. -/
structure SharedOk (s : State o Exc) : Prop where
  remaining : s.remaining = s.uncounted.card
  values : ∀ i v, (s.runner i).outcome = some (.ok v) → o.get i s.cell = some v
  firstEp : s.firstEp = s.thrown.head?.map Prod.snd
  logged : ∀ i e, (i, e) ∈ s.thrown ↔ (s.runner i).outcome = some (.error e)

/-- How the parent's place goes with the rest. -/
structure ParentOk (s : State o Exc) : Prop where
  completing : ∀ i, (s.runner i).isCompleting = true → s.remaining = 0
  sentinel : s.waiter = .sentinel → s.remaining = 0
  waiting : s.waiter = .parent → s.parent = .suspended
  resuming : ∀ i, (s.runner i).isResuming = true →
    s.parent = .suspended ∧ s.waiter = .sentinel
  sole : ∀ i j, (s.runner i).isResuming = true →
    (s.runner j).isResuming = true → j = i
  executor : s.parent = .exchange ∨ s.parent = .suspended → s.ex = true
  proceeded : s.parent.proceeded = true → s.remaining = 0
  returned : ∀ result, s.parent = .returned result → result = s.collect
  alive : s.parent ≠ .terminated

/-- No wake-up is lost: the last runner to count down publishes the completion, and
whoever replaces a waiting parent resumes it. -/
structure Wakes (s : State o Exc) : Prop where
  published : s.remaining = 0 →
    s.waiter = .sentinel ∨ ∃ i, (s.runner i).isCompleting = true
  asleep : s.parent = .suspended →
    s.waiter = .parent ∨ ∃ i, (s.runner i).isResuming = true

structure Inv (s : State o Exc) : Prop where
  shared : SharedOk s
  parent : ParentOk s

theorem start_inv : Inv (system o Exc).start where
  shared := by
    refine ⟨?_, nofun, rfl, fun i e => ?_⟩
    · simp [system, State.uncounted, Runner.counted]
    · simp [system, Runner.outcome]
  parent := by
    constructor <;>
      simp [system, ParentPc.proceeded, Runner.isCompleting, Runner.isResuming]

theorem SharedOk.counted_of_done {s : State o Exc} (hs : SharedOk s)
    (hdone : s.remaining = 0) (i : Fin (n + 1)) : (s.runner i).counted = true := by
  have hnone : s.uncounted = ∅ := by
    rw [← Finset.card_eq_zero, ← hs.remaining, hdone]
  by_contra hcounted
  have hmem : i ∈ s.uncounted := by
    simpa [State.uncounted] using hcounted
  rw [hnone] at hmem
  exact absurd hmem (Finset.notMem_empty i)

theorem collect_eq {cell : o.Cell} {vs : ∀ i, Value i}
    (hget : ∀ i, o.get i cell = some (vs i)) : o.collect cell = some vs := by
  have hall : ∀ i, (o.get i cell).isSome = true := fun i => by
    rw [hget]
    rfl
  rw [Overload.collect, dif_pos hall]
  congr
  funext i
  simp [hget]

/-- With all runners done and no exception stored, the values are all there. -/
theorem SharedOk.collect_values {s : State o Exc} (hs : SharedOk s)
    (hdone : s.remaining = 0)
    (hnone : ∀ i e, (s.runner i).outcome ≠ some (.error e)) :
    ∃ vs, s.collect = .values vs ∧ ∀ i, (s.runner i).outcome = some (.ok (vs i)) := by
  have hok : ∀ i, ∃ v, (s.runner i).outcome = some (.ok v) := by
    intro i
    obtain ⟨outcome, houtcome⟩ :=
      Runner.outcome_of_counted (hs.counted_of_done hdone i)
    cases outcome with
    | ok v => exact ⟨v, houtcome⟩
    | error e => exact absurd houtcome (hnone i e)
  have hthrown : s.thrown = [] := by
    refine List.eq_nil_iff_forall_not_mem.mpr fun entry hentry => ?_
    exact hnone entry.1 entry.2 ((hs.logged entry.1 entry.2).mp hentry)
  have hfirst : s.firstEp = none := by
    rw [hs.firstEp, hthrown]
    rfl
  choose vs hvs using hok
  refine ⟨vs, ?_, hvs⟩
  rw [State.collect, hfirst, collect_eq fun i => hs.values i (vs i) (hvs i)]

theorem SharedOk.collect_threw {s : State o Exc} (hs : SharedOk s) {i : Fin (n + 1)}
    {e : Exc} (herror : (s.runner i).outcome = some (.error e)) :
    ∃ first rest, s.thrown = first :: rest ∧ s.collect = .threw first.2 := by
  have hmem := (hs.logged i e).mpr herror
  cases hthrown : s.thrown with
  | nil => simp [hthrown] at hmem
  | cons first rest =>
      have hfirst : s.firstEp = some first.2 := by
        rw [hs.firstEp, hthrown]
        rfl
      exact ⟨first, rest, rfl, by rw [State.collect, hfirst]⟩

/-! ### The steps of the parent -/

/-- Before it has waited the parent is free to go anywhere but to sleep. -/
theorem ParentOk.move {s t : State o Exc} (hs : ParentOk s)
    (hbefore : s.parent ≠ .suspended) (hrunner : t.runner = s.runner)
    (hremaining : t.remaining = s.remaining) (hwaiter : t.waiter = s.waiter)
    (hsuspended : t.parent ≠ .suspended) (halive : t.parent ≠ .terminated)
    (hexchange : t.parent = .exchange → t.ex = true)
    (hproceeded : t.parent.proceeded = true → s.remaining = 0)
    (hreturned : ∀ result, t.parent = .returned result → result = t.collect) :
    ParentOk t where
  completing := by
    rw [hrunner, hremaining]
    exact hs.completing
  sentinel := by
    rw [hwaiter, hremaining]
    exact hs.sentinel
  waiting := fun hwaiting => absurd (hs.waiting (hwaiter ▸ hwaiting)) hbefore
  resuming := by
    rw [hrunner]
    exact fun i hresuming => absurd (hs.resuming i hresuming).1 hbefore
  sole := by
    rw [hrunner]
    exact hs.sole
  executor := fun hpc => hexchange (hpc.resolve_right hsuspended)
  proceeded := by
    rw [hremaining]
    exact hproceeded
  returned := hreturned
  alive := halive

theorem SharedOk.of_parent {s : State o Exc} (hs : SharedOk s) (ex : Bool)
    (waiter : Waiter) (parent : ParentPc Value Exc) :
    SharedOk { s with ex, waiter, parent } :=
  ⟨hs.remaining, hs.values, hs.firstEp, hs.logged⟩

/-- A look at `is_done`. -/
theorem look_inv {s : State o Exc} (hs : Inv s) (hbefore : s.parent ≠ .suspended)
    {next : ParentPc Value Exc} (hnext : next = .suspend ∨ next = .storeEx) :
    Inv { s with parent := if s.isDone then .read else next } := by
  refine ⟨hs.shared.of_parent _ _ _, ?_⟩
  cases hdone : s.isDone with
  | true =>
      refine hs.parent.move hbefore rfl rfl rfl (by simp) (by simp) (by simp)
        (fun _ => ?_) (by simp)
      exact of_decide_eq_true (by simpa [State.isDone] using hdone)
  | false =>
      rcases hnext with rfl | rfl
      · exact hs.parent.move hbefore rfl rfl rfl (by simp) (by simp) (by simp)
          (by simp [ParentPc.proceeded]) (by simp)
      · exact hs.parent.move hbefore rfl rfl rfl (by simp) (by simp) (by simp)
          (by simp [ParentPc.proceeded]) (by simp)

theorem proceed_inv {s t : State o Exc} (hs : Inv s) (hstep : proceed s = some t) :
    Inv t := by
  have hparent := hs.parent
  unfold proceed at hstep
  split at hstep
  next hpc =>
    obtain rfl := Option.some.inj hstep
    exact look_inv hs (by simp [hpc]) (Or.inl rfl)
  next hpc =>
    obtain rfl := Option.some.inj hstep
    exact look_inv hs (by simp [hpc]) (Or.inr rfl)
  next hpc =>
    obtain rfl := Option.some.inj hstep
    exact ⟨hs.shared.of_parent _ _ _,
      hparent.move (by simp [hpc]) rfl rfl rfl (by simp) (by simp) (fun _ => rfl)
        (by simp [ParentPc.proceeded]) (by simp)⟩
  next hpc =>
    split at hstep
    next hwaiter =>
      obtain rfl := Option.some.inj hstep
      refine ⟨hs.shared.of_parent _ _ _, hparent.completing, by simp, fun _ => rfl, ?_,
        hparent.sole, fun _ => hparent.executor (Or.inl hpc),
        by simp [ParentPc.proceeded], by simp, by simp⟩
      intro i hresuming
      have hsuspended := (hparent.resuming i hresuming).1
      simp [hpc] at hsuspended
    next hwaiter =>
      obtain rfl := Option.some.inj hstep
      exact ⟨hs.shared.of_parent _ _ _,
        hparent.move (by simp [hpc]) rfl rfl rfl (by simp) (by simp) (by simp)
          (fun _ => hparent.sentinel hwaiter) (by simp)⟩
    next hwaiter =>
      have hsuspended := hparent.waiting hwaiter
      simp [hpc] at hsuspended
  next hpc =>
    obtain rfl := Option.some.inj hstep
    refine ⟨hs.shared.of_parent _ _ _,
      hparent.move (by simp [hpc]) rfl rfl rfl (by simp) (by simp) (by simp)
        (fun _ => hparent.proceeded (by rw [hpc]; rfl)) ?_⟩
    intro result hresult
    exact (ParentPc.returned.inj hresult).symm
  next => simp at hstep

/-! ### The steps of the runners -/

theorem setRunner_same (s : State o Exc) (i : Fin (n + 1))
    (runner : Runner Exc (Value i)) : (s.setRunner i runner).runner i = runner := by
  simp [State.setRunner]

theorem setRunner_other (s : State o Exc) {i j : Fin (n + 1)} (hj : j ≠ i)
    (runner : Runner Exc (Value i)) :
    (s.setRunner i runner).runner j = s.runner j := by
  simp [State.setRunner, hj]

/-- A runner that has already counted down, or does not yet, leaves the count. -/
theorem setRunner_uncounted {s : State o Exc} {i : Fin (n + 1)}
    {runner : Runner Exc (Value i)} (hsame : runner.counted = (s.runner i).counted) :
    (s.setRunner i runner).uncounted = s.uncounted := by
  ext j
  by_cases hj : j = i
  · subst hj
    simp [State.uncounted, setRunner_same, hsame]
  · simp [State.uncounted, setRunner_other s hj]

theorem setRunner_uncounted_erase {s : State o Exc} {i : Fin (n + 1)}
    {runner : Runner Exc (Value i)} (hnew : runner.counted = true) :
    (s.setRunner i runner).uncounted = s.uncounted.erase i := by
  ext j
  by_cases hj : j = i
  · subst hj
    simp [State.uncounted, setRunner_same, hnew]
  · simp [State.uncounted, setRunner_other s hj, hj]

/-- A runner moves without a store. -/
theorem setRunner_outcome {s : State o Exc} {i : Fin (n + 1)}
    {runner : Runner Exc (Value i)} (hsame : runner.outcome = (s.runner i).outcome)
    (j : Fin (n + 1)) :
    ((s.setRunner i runner).runner j).outcome = (s.runner j).outcome := by
  by_cases hj : j = i
  · subst hj
    rw [setRunner_same, hsame]
  · rw [setRunner_other s hj]

/-- Outside `complete` nothing about the parent depends on the runner. -/
theorem ParentOk.setRunner {s : State o Exc} (hs : ParentOk s) {i : Fin (n + 1)}
    {runner : Runner Exc (Value i)} (hcompleting : runner.isCompleting = false)
    (hresuming : runner.isResuming = false)
    (hreturned : ∀ result, s.parent = .returned result →
      result = (s.setRunner i runner).collect) :
    ParentOk (s.setRunner i runner) := by
  have hold : ∀ j, ((s.setRunner i runner).runner j).isResuming = true →
      (s.runner j).isResuming = true := by
    intro j hj
    by_cases heq : j = i
    · subst heq
      rw [setRunner_same, hresuming] at hj
      exact absurd hj (by simp)
    · rwa [setRunner_other s heq] at hj
  exact
    { completing := fun j hj => by
        by_cases heq : j = i
        · subst heq
          rw [setRunner_same, hcompleting] at hj
          exact absurd hj (by simp)
        · rw [setRunner_other s heq] at hj
          exact hs.completing j hj
      sentinel := hs.sentinel
      waiting := hs.waiting
      resuming := fun j hj => hs.resuming j (hold j hj)
      sole := fun j k hj hk => hs.sole j k (hold j hj) (hold k hk)
      executor := hs.executor
      proceeded := hs.proceeded
      returned := hreturned
      alive := hs.alive }

/-- A runner that has not counted down is one for which the parent waits. -/
theorem Inv.remaining_pos {s : State o Exc} (hs : Inv s) {i : Fin (n + 1)}
    (hcounted : (s.runner i).counted = false) : 0 < s.remaining := by
  rw [hs.shared.remaining]
  exact Finset.card_pos.mpr ⟨i, by simpa [State.uncounted] using hcounted⟩

theorem Inv.not_returned {s : State o Exc} (hs : Inv s) {i : Fin (n + 1)}
    (hcounted : (s.runner i).counted = false) (result : Result Value Exc) :
    s.parent ≠ .returned result := by
  intro hreturned
  have hdone := hs.parent.proceeded (by rw [hreturned]; rfl)
  exact absurd (hs.remaining_pos hcounted) (by omega)

theorem finish_inv {s : State o Exc} (hs : Inv s) {i : Fin (n + 1)}
    {outcome : Except Exc (Value i)} (hi : s.runner i = .running) :
    Inv (s.setRunner i (.finished outcome)) where
  shared :=
    { remaining := by
        rw [setRunner_uncounted (by rw [hi]; rfl)]
        exact hs.shared.remaining
      values := fun j v hj =>
        hs.shared.values j v ((setRunner_outcome (by rw [hi]; rfl) j).symm.trans hj)
      firstEp := hs.shared.firstEp
      logged := fun j e => by
        rw [setRunner_outcome (by rw [hi]; rfl)]
        exact hs.shared.logged j e }
  parent := hs.parent.setRunner rfl rfl hs.parent.returned

/-- The value of a finished task is lost by its own store; the cells of the others
stay. -/
theorem storeThrows_inv {s : State o Exc} (hs : Inv s) {i : Fin (n + 1)} {v : Value i}
    {e : Exc} (hi : s.runner i = .finished (.ok v)) :
    Inv { s.setRunner i (.finished (.error e)) with cell := o.spoil i s.cell } where
  shared :=
    { remaining := by
        have hsame : (s.setRunner i (.finished (.error e))).uncounted = s.uncounted :=
          setRunner_uncounted (by rw [hi]; rfl)
        exact hs.shared.remaining.trans (congrArg Finset.card hsame).symm
      values := fun j w hj => by
        have hne : j ≠ i := by
          rintro rfl
          rw [setRunner_same] at hj
          exact absurd hj (by simp [Runner.outcome])
        rw [setRunner_other s hne] at hj
        exact (o.get_spoil_ne i j s.cell hne).trans (hs.shared.values j w hj)
      firstEp := hs.shared.firstEp
      logged := fun j e' => by
        have hsame : ((s.setRunner i (.finished (.error e))).runner j).outcome =
            (s.runner j).outcome := setRunner_outcome (by rw [hi]; rfl) j
        exact (hs.shared.logged j e').trans (by rw [← hsame]) }
  parent := by
    have hmoved : ParentOk (s.setRunner i (.finished (.error e))) :=
      hs.parent.setRunner rfl rfl fun result hreturned =>
        absurd hreturned (hs.not_returned (by rw [hi]; rfl) result)
    exact { hmoved with
      returned := fun result hreturned =>
        absurd hreturned (hs.not_returned (by rw [hi]; rfl) result) }

theorem store_inv {s : State o Exc} (hs : Inv s) {i : Fin (n + 1)}
    {outcome : Except Exc (Value i)} (hi : s.runner i = .finished outcome) :
    Inv ((s.store i outcome).setRunner i (.stored outcome)) := by
  have hsame : (s.setRunner i (.stored outcome)).uncounted = s.uncounted :=
    setRunner_uncounted (by rw [hi]; rfl)
  have hparent : ParentOk (s.setRunner i (.stored outcome)) :=
    hs.parent.setRunner rfl rfl fun result hreturned =>
      absurd hreturned (hs.not_returned (by rw [hi]; rfl) result)
  have hnone : ∀ result, s.parent ≠ .returned result :=
    hs.not_returned (by rw [hi]; rfl)
  have houtcome : ((s.setRunner i (.stored outcome)).runner i).outcome =
      some outcome := by
    rw [setRunner_same]
    rfl
  cases outcome with
  | ok v =>
      refine ⟨⟨hs.shared.remaining.trans (congrArg Finset.card hsame).symm, ?_,
        hs.shared.firstEp, ?_⟩,
        { hparent with
          returned := fun result hreturned => absurd hreturned (hnone result) }⟩
      · intro j w hj
        by_cases hne : j = i
        · subst hne
          obtain rfl : v = w := Except.ok.inj (Option.some.inj (houtcome.symm.trans hj))
          exact o.get_emplace j v s.cell
        · have hold : (s.runner j).outcome = some (.ok w) :=
            (congrArg Runner.outcome (setRunner_other s hne _)).symm.trans hj
          exact (o.get_emplace_ne i j v s.cell hne).trans (hs.shared.values j w hold)
      · intro j e
        refine (hs.shared.logged j e).trans ?_
        by_cases hne : j = i
        · subst hne
          refine iff_of_false ?_ fun hj => ?_
          · rw [hi]
            exact fun h => absurd h (by simp [Runner.outcome])
          · exact absurd (Option.some.inj (houtcome.symm.trans hj)) (by simp)
        · exact (iff_of_eq (congrArg (Runner.outcome · = some (.error e))
            (setRunner_other s hne _))).symm
  | error e =>
      refine ⟨⟨hs.shared.remaining.trans (congrArg Finset.card hsame).symm, ?_, ?_, ?_⟩,
        { hparent with
          returned := fun result hreturned => absurd hreturned (hnone result) }⟩
      · intro j w hj
        have hne : j ≠ i := by
          rintro rfl
          exact absurd (Option.some.inj (houtcome.symm.trans hj)) (by simp)
        have hold : (s.runner j).outcome = some (.ok w) :=
          (congrArg Runner.outcome (setRunner_other s hne _)).symm.trans hj
        exact hs.shared.values j w hold
      · change some (s.firstEp.getD e) = (s.thrown ++ [(i, e)]).head?.map Prod.snd
        rw [hs.shared.firstEp]
        cases s.thrown <;> rfl
      · intro j e'
        change (j, e') ∈ s.thrown ++ [(i, e)] ↔
          ((s.setRunner i (.stored (.error e))).runner j).outcome = some (.error e')
        rw [List.mem_append, List.mem_singleton, hs.shared.logged]
        by_cases hne : j = i
        · subst hne
          rw [houtcome, hi]
          simp [Runner.outcome, eq_comm]
        · rw [setRunner_other s hne]
          simp [hne]

/-- The last runner to count down goes on to `complete`. -/
theorem tryComplete_inv {s : State o Exc} (hs : Inv s) {i : Fin (n + 1)}
    {outcome : Except Exc (Value i)} (hi : s.runner i = .stored outcome) :
    Inv { s.setRunner i
      (if s.remaining = 1 then .completing outcome else .ended outcome) with
        remaining := s.remaining - 1 } := by
  have hnone : ∀ result, s.parent ≠ .returned result :=
    hs.not_returned (by rw [hi]; rfl)
  have hpos : 0 < s.remaining := hs.remaining_pos (by rw [hi]; rfl)
  generalize hrunner : (if s.remaining = 1 then Runner.completing outcome
    else .ended outcome) = runner
  have hcounted : runner.counted = true := by
    rw [← hrunner]
    split <;> rfl
  have hsame : runner.outcome = (s.runner i).outcome := by
    rw [← hrunner, hi]
    split <;> rfl
  have hcompleting : runner.isCompleting = true → s.remaining = 1 := by
    rw [← hrunner]
    split
    next hone => exact fun _ => hone
    next => exact nofun
  have hresuming : runner.isResuming = false := by
    rw [← hrunner]
    split <;> rfl
  have hold : ∀ j, ((s.setRunner i runner).runner j).isResuming = true →
      (s.runner j).isResuming = true := by
    intro j hj
    by_cases heq : j = i
    · subst heq
      rw [setRunner_same, hresuming] at hj
      exact absurd hj (by simp)
    · rwa [setRunner_other s heq] at hj
  refine ⟨⟨?_, ?_, hs.shared.firstEp, ?_⟩, ?_⟩
  · change s.remaining - 1 = (s.setRunner i runner).uncounted.card
    have hmem : i ∈ s.uncounted := by
      rw [State.uncounted, Finset.mem_filter]
      exact ⟨Finset.mem_univ i, congrArg Runner.counted hi⟩
    rw [setRunner_uncounted_erase hcounted, Finset.card_erase_of_mem hmem,
      hs.shared.remaining]
  · intro j v hj
    exact hs.shared.values j v ((setRunner_outcome hsame j).symm.trans hj)
  · intro j e
    exact (hs.shared.logged j e).trans (by rw [← setRunner_outcome hsame j])
  · exact
      { completing := fun j hj => by
          change s.remaining - 1 = 0
          by_cases heq : j = i
          · subst heq
            have hone := hcompleting (by
              rw [← setRunner_same s j runner]
              exact hj)
            omega
          · have hone := hs.parent.completing j (by
              rw [← setRunner_other s heq runner]
              exact hj)
            omega
        sentinel := fun hsentinel => by
          have hdone := hs.parent.sentinel hsentinel
          omega
        waiting := hs.parent.waiting
        resuming := fun j hj => hs.parent.resuming j (hold j hj)
        sole := fun j k hj hk => hs.parent.sole j k (hold j hj) (hold k hk)
        executor := hs.parent.executor
        proceeded := fun hproceeded => by
          have hdone := hs.parent.proceeded hproceeded
          omega
        returned := fun result hreturned => absurd hreturned (hnone result)
        alive := hs.parent.alive }

/-- A runner moves with its outcome among the places after `try_complete`. -/
theorem SharedOk.setRunner {s : State o Exc} (hs : SharedOk s) {i : Fin (n + 1)}
    {runner : Runner Exc (Value i)} (hcounted : runner.counted = (s.runner i).counted)
    (houtcome : runner.outcome = (s.runner i).outcome) :
    SharedOk (s.setRunner i runner) where
  remaining := by
    rw [setRunner_uncounted hcounted]
    exact hs.remaining
  values := fun j v hj => hs.values j v ((setRunner_outcome houtcome j).symm.trans hj)
  firstEp := hs.firstEp
  logged := fun j e => by
    rw [setRunner_outcome houtcome]
    exact hs.logged j e

theorem complete_inv {s : State o Exc} (hs : Inv s) {i : Fin (n + 1)}
    {outcome : Except Exc (Value i)} (hi : s.runner i = .completing outcome) :
    Inv { s.setRunner i
      (if s.waiter = .parent then .resuming outcome else .ended outcome) with
        waiter := .sentinel } := by
  have hdone : s.remaining = 0 := hs.parent.completing i (by rw [hi]; rfl)
  by_cases hwaiter : s.waiter = .parent
  · -- The parent sleeps, and nobody else is about to wake it.
    have hsuspended := hs.parent.waiting hwaiter
    have hothers : ∀ j, (s.runner j).isResuming = false := by
      intro j
      rw [Bool.eq_false_iff]
      intro hj
      have hsentinel := (hs.parent.resuming j hj).2
      rw [hwaiter] at hsentinel
      exact absurd hsentinel (by decide)
    have hsole : ∀ j, ((s.setRunner i (.resuming outcome)).runner j).isResuming =
        true → j = i := by
      intro j hj
      by_contra heq
      rw [setRunner_other s heq, hothers] at hj
      exact absurd hj (by simp)
    rw [if_pos hwaiter]
    refine ⟨?_, ?_⟩
    · have hshared : SharedOk (s.setRunner i (.resuming outcome)) :=
        hs.shared.setRunner (by rw [hi]; rfl) (by rw [hi]; rfl)
      exact ⟨hshared.remaining, hshared.values, hshared.firstEp, hshared.logged⟩
    · exact
        { completing := fun _ _ => hdone
          sentinel := fun _ => hdone
          waiting := nofun
          resuming := fun j _ => ⟨hsuspended, rfl⟩
          sole := fun j k hj hk => (hsole k hk).trans (hsole j hj).symm
          executor := hs.parent.executor
          proceeded := fun _ => hdone
          returned := hs.parent.returned
          alive := hs.parent.alive }
  · rw [if_neg hwaiter]
    have hshared : SharedOk (s.setRunner i (.ended outcome)) :=
      hs.shared.setRunner (by rw [hi]; rfl) (by rw [hi]; rfl)
    have hmoved : ParentOk (s.setRunner i (.ended outcome)) :=
      hs.parent.setRunner rfl rfl hs.parent.returned
    refine ⟨⟨hshared.remaining, hshared.values, hshared.firstEp, hshared.logged⟩, ?_⟩
    exact
      { hmoved with
        completing := fun _ _ => hdone
        sentinel := fun _ => hdone
        waiting := nofun
        resuming := fun j hj => ⟨(hmoved.resuming j hj).1, rfl⟩
        proceeded := fun _ => hdone
        returned := hs.parent.returned }

theorem resume_inv {s : State o Exc} (hs : Inv s) {i : Fin (n + 1)}
    {outcome : Except Exc (Value i)} (hi : s.runner i = .resuming outcome) :
    Inv { s.setRunner i (.ended outcome) with
      parent := if s.ex then .read else .terminated } := by
  have hthis : (s.runner i).isResuming = true := by
    rw [hi]
    rfl
  obtain ⟨hsuspended, hsentinel⟩ := hs.parent.resuming i hthis
  have hdone := hs.parent.sentinel hsentinel
  have hshared : SharedOk (s.setRunner i (.ended outcome)) :=
    hs.shared.setRunner (by rw [hi]; rfl) (by rw [hi]; rfl)
  have hnone : ∀ j, ((s.setRunner i (.ended outcome)).runner j).isResuming = false := by
    intro j
    by_cases heq : j = i
    · subst heq
      rw [setRunner_same]
      rfl
    · rw [setRunner_other s heq, Bool.eq_false_iff]
      exact fun hj => heq (hs.parent.sole i j hthis hj)
  rw [if_pos (hs.parent.executor (Or.inr hsuspended))]
  refine ⟨⟨hshared.remaining, hshared.values, hshared.firstEp, hshared.logged⟩, ?_⟩
  exact
    { completing := fun _ _ => hdone
      sentinel := fun _ => hdone
      waiting := fun hwaiting => absurd (hsentinel.symm.trans hwaiting) (by decide)
      resuming := fun j hj => absurd hj (by
        rw [Bool.not_eq_true]
        exact hnone j)
      sole := fun j k hj _ => absurd hj (by
        rw [Bool.not_eq_true]
        exact hnone j)
      executor := by simp
      proceeded := fun _ => hdone
      returned := by simp
      alive := by simp }

theorem run_inv {s t : State o Exc} {a : Action Value Exc} (hs : Inv s)
    (hstep : run s a = some t) : Inv t := by
  cases a with
  | finish i outcome =>
      simp only [run] at hstep
      split at hstep
      next hi => exact Option.some.inj hstep ▸ finish_inv hs hi
      next => simp at hstep
  | store i =>
      simp only [run] at hstep
      split at hstep
      next hi => exact Option.some.inj hstep ▸ store_inv hs hi
      next => simp at hstep
  | storeThrows i e =>
      simp only [run] at hstep
      split at hstep
      next hi =>
        split at hstep
        next => exact Option.some.inj hstep ▸ storeThrows_inv hs hi
        next => simp at hstep
      next => simp at hstep
  | tryComplete i =>
      simp only [run] at hstep
      split at hstep
      next hi => exact Option.some.inj hstep ▸ tryComplete_inv hs hi
      next => simp at hstep
  | complete i =>
      simp only [run] at hstep
      split at hstep
      next hi => exact Option.some.inj hstep ▸ complete_inv hs hi
      next => simp at hstep
  | resume i =>
      simp only [run] at hstep
      split at hstep
      next hi => exact Option.some.inj hstep ▸ resume_inv hs hi
      next => simp at hstep
  | parent => simp [run] at hstep

theorem step_inv {s t : State o Exc} {a : Action Value Exc} (hs : Inv s)
    (hstep : step s a = some t) : Inv t := by
  cases a with
  | parent => exact proceed_inv hs hstep
  | finish i outcome => exact run_inv (a := .finish i outcome) hs hstep
  | store i => exact run_inv (a := .store i) hs hstep
  | storeThrows i e => exact run_inv (a := .storeThrows i e) hs hstep
  | tryComplete i => exact run_inv (a := .tryComplete i) hs hstep
  | complete i => exact run_inv (a := .complete i) hs hstep
  | resume i => exact run_inv (a := .resume i) hs hstep

/-! ### The end -/

/-- Runners and parent move so that nobody leaves `complete` or a pending resume. -/
theorem Wakes.move {s t : State o Exc} (hs : Wakes s)
    (hremaining : t.remaining = 0 → s.remaining = 0) (hwaiter : t.waiter = s.waiter)
    (hasleep : t.parent = .suspended → s.parent = .suspended)
    (hcompleting : ∀ i, (s.runner i).isCompleting = true →
      (t.runner i).isCompleting = true)
    (hresuming : ∀ i, (s.runner i).isResuming = true →
      (t.runner i).isResuming = true) : Wakes t where
  published := fun hdone => by
    rw [hwaiter]
    exact (hs.published (hremaining hdone)).imp_right
      fun ⟨i, hi⟩ => ⟨i, hcompleting i hi⟩
  asleep := fun hsuspended => by
    rw [hwaiter]
    exact (hs.asleep (hasleep hsuspended)).imp_right
      fun ⟨i, hi⟩ => ⟨i, hresuming i hi⟩

/-- One runner moves that is in neither of the two places. -/
theorem setRunner_keeps {s : State o Exc} {i : Fin (n + 1)}
    (hcompleting : (s.runner i).isCompleting = false)
    (hresuming : (s.runner i).isResuming = false) (runner : Runner Exc (Value i)) :
    (∀ j, (s.runner j).isCompleting = true →
      ((s.setRunner i runner).runner j).isCompleting = true) ∧
    ∀ j, (s.runner j).isResuming = true →
      ((s.setRunner i runner).runner j).isResuming = true := by
  constructor
  · intro j hj
    have hne : j ≠ i := by
      rintro rfl
      rw [hcompleting] at hj
      exact absurd hj (by simp)
    rwa [setRunner_other s hne]
  · intro j hj
    have hne : j ≠ i := by
      rintro rfl
      rw [hresuming] at hj
      exact absurd hj (by simp)
    rwa [setRunner_other s hne]

theorem proceed_wakes {s t : State o Exc} (hs : Wakes s) (hparent : ParentOk s)
    (hstep : proceed s = some t) : Wakes t := by
  unfold proceed at hstep
  split at hstep
  next =>
    obtain rfl := Option.some.inj hstep
    exact hs.move id rfl (by split <;> simp) (fun _ => id) fun _ => id
  next =>
    obtain rfl := Option.some.inj hstep
    exact hs.move id rfl (by split <;> simp) (fun _ => id) fun _ => id
  next =>
    obtain rfl := Option.some.inj hstep
    exact hs.move id rfl (by simp) (fun _ => id) fun _ => id
  next hpc =>
    split at hstep
    next hwaiter =>
      obtain rfl := Option.some.inj hstep
      refine ⟨fun hdone => (hs.published hdone).imp_left fun hsentinel => ?_,
        fun _ => Or.inl rfl⟩
      exact absurd (hwaiter.symm.trans hsentinel) (by decide)
    next =>
      obtain rfl := Option.some.inj hstep
      exact hs.move id rfl (by simp) (fun _ => id) fun _ => id
    next hwaiter =>
      have hsuspended := hparent.waiting hwaiter
      simp [hpc] at hsuspended
  next =>
    obtain rfl := Option.some.inj hstep
    exact hs.move id rfl (by simp) (fun _ => id) fun _ => id
  next => simp at hstep

theorem tryComplete_wakes {s : State o Exc} (hs : Wakes s) (hinv : Inv s)
    {i : Fin (n + 1)} {outcome : Except Exc (Value i)}
    (hi : s.runner i = .stored outcome) :
    Wakes { s.setRunner i
      (if s.remaining = 1 then .completing outcome else .ended outcome) with
        remaining := s.remaining - 1 } := by
  have hpos : 0 < s.remaining := hinv.remaining_pos (by rw [hi]; rfl)
  have hkeeps := setRunner_keeps (s := s) (i := i) (by rw [hi]; rfl) (by rw [hi]; rfl)
  by_cases hone : s.remaining = 1
  · rw [if_pos hone]
    refine ⟨fun _ => Or.inr ⟨i, ?_⟩, fun hsuspended =>
      (hs.asleep hsuspended).imp_right fun ⟨j, hj⟩ => ⟨j, (hkeeps _).2 j hj⟩⟩
    exact congrArg Runner.isCompleting (setRunner_same s i _)
  · rw [if_neg hone]
    refine hs.move (fun hdone => ?_) rfl id (hkeeps _).1 (hkeeps _).2
    change s.remaining - 1 = 0 at hdone
    omega

theorem complete_wakes {s : State o Exc} (hs : Wakes s)
    {i : Fin (n + 1)} {outcome : Except Exc (Value i)}
    (hi : s.runner i = .completing outcome) :
    Wakes { s.setRunner i
      (if s.waiter = .parent then .resuming outcome else .ended outcome) with
        waiter := .sentinel } := by
  refine ⟨fun _ => Or.inl rfl, fun hsuspended => Or.inr ?_⟩
  by_cases hwaiter : s.waiter = .parent
  · rw [if_pos hwaiter]
    exact ⟨i, congrArg Runner.isResuming (setRunner_same s i _)⟩
  · obtain ⟨j, hj⟩ := (hs.asleep hsuspended).resolve_left hwaiter
    have hne : j ≠ i := by
      rintro rfl
      rw [hi] at hj
      exact absurd hj (by simp [Runner.isResuming])
    exact ⟨j, (congrArg Runner.isResuming (setRunner_other s hne _)).trans hj⟩

theorem resume_wakes {s : State o Exc} (hparent : ParentOk s)
    {i : Fin (n + 1)} {outcome : Except Exc (Value i)}
    (hi : s.runner i = .resuming outcome) :
    Wakes { s.setRunner i (.ended outcome) with
      parent := if s.ex then .read else .terminated } := by
  have hsentinel := (hparent.resuming i (by rw [hi]; rfl)).2
  refine ⟨fun _ => Or.inl hsentinel, fun hsuspended => ?_⟩
  exact absurd hsuspended (by split <;> simp)

theorem run_wakes {s t : State o Exc} {a : Action Value Exc} (hs : Wakes s)
    (hinv : Inv s) (hstep : run s a = some t) : Wakes t := by
  cases a with
  | finish i outcome =>
      simp only [run] at hstep
      split at hstep
      next hi =>
        obtain rfl := Option.some.inj hstep
        have hkeeps := setRunner_keeps (s := s) (i := i) (by rw [hi]; rfl)
          (by rw [hi]; rfl) (.finished outcome)
        exact hs.move id rfl id hkeeps.1 hkeeps.2
      next => simp at hstep
  | store i =>
      simp only [run] at hstep
      split at hstep
      next outcome hi =>
        obtain rfl := Option.some.inj hstep
        have hkeeps := setRunner_keeps (s := s) (i := i) (by rw [hi]; rfl)
          (by rw [hi]; rfl) (.stored outcome)
        cases outcome with
        | ok v => exact hs.move id rfl id hkeeps.1 hkeeps.2
        | error e => exact hs.move id rfl id hkeeps.1 hkeeps.2
      next => simp at hstep
  | storeThrows i e =>
      simp only [run] at hstep
      split at hstep
      next hi =>
        split at hstep
        next =>
          obtain rfl := Option.some.inj hstep
          have hkeeps := setRunner_keeps (s := s) (i := i) (by rw [hi]; rfl)
            (by rw [hi]; rfl) (.finished (.error e))
          exact hs.move id rfl id hkeeps.1 hkeeps.2
        next => simp at hstep
      next => simp at hstep
  | tryComplete i =>
      simp only [run] at hstep
      split at hstep
      next hi => exact Option.some.inj hstep ▸ tryComplete_wakes hs hinv hi
      next => simp at hstep
  | complete i =>
      simp only [run] at hstep
      split at hstep
      next hi => exact Option.some.inj hstep ▸ complete_wakes hs hi
      next => simp at hstep
  | resume i =>
      simp only [run] at hstep
      split at hstep
      next hi => exact Option.some.inj hstep ▸ resume_wakes hinv.parent hi
      next => simp at hstep
  | parent => simp [run] at hstep

theorem step_wakes {s t : State o Exc} {a : Action Value Exc} (hs : Wakes s)
    (hinv : Inv s) (hstep : step s a = some t) : Wakes t := by
  cases a with
  | parent => exact proceed_wakes hs hinv.parent hstep
  | finish i outcome => exact run_wakes (a := .finish i outcome) hs hinv hstep
  | store i => exact run_wakes (a := .store i) hs hinv hstep
  | storeThrows i e => exact run_wakes (a := .storeThrows i e) hs hinv hstep
  | tryComplete i => exact run_wakes (a := .tryComplete i) hs hinv hstep
  | complete i => exact run_wakes (a := .complete i) hs hinv hstep
  | resume i => exact run_wakes (a := .resume i) hs hinv hstep

/-- How many steps a runner has before it at most. -/
def Runner.work {Exc : Type v} {T : Type u} : Runner Exc T → Nat
  | .running => 6
  | .finished (.ok _) => 5
  | .finished (.error _) => 4
  | .stored _ => 3
  | .completing _ => 2
  | .resuming _ => 1
  | .ended _ => 0

def ParentPc.work {n : Nat} {Value : Fin (n + 1) → Type u} {Exc : Type v} :
    ParentPc Value Exc → Nat
  | .ready => 6
  | .suspend => 5
  | .storeEx => 4
  | .exchange => 3
  | .suspended => 2
  | .read => 1
  | .returned _ | .terminated => 0

/-- A bound on the steps that are left. -/
def State.work (s : State o Exc) : Nat :=
  s.parent.work + ∑ i, (s.runner i).work

theorem setRunner_work {s : State o Exc} {i : Fin (n + 1)}
    {runner : Runner Exc (Value i)} (hless : runner.work < (s.runner i).work) :
    ∑ j, ((s.setRunner i runner).runner j).work < ∑ j, (s.runner j).work := by
  refine Finset.sum_lt_sum (fun j _ => ?_) ⟨i, Finset.mem_univ i, ?_⟩
  · by_cases hne : j = i
    · subst hne
      rw [setRunner_same]
      exact hless.le
    · rw [setRunner_other s hne]
  · rw [setRunner_same]
    exact hless

theorem proceed_work {s t : State o Exc} (hstep : proceed s = some t) :
    t.work < s.work := by
  have hless : ∀ u : State o Exc, u.runner = s.runner →
      u.parent.work < s.parent.work → u.work < s.work := by
    intro u hrunner hparent
    rw [State.work, State.work, hrunner]
    omega
  unfold proceed at hstep
  split at hstep
  next hpc =>
    obtain rfl := Option.some.inj hstep
    refine hless _ rfl ?_
    rw [hpc]
    cases s.isDone <;> simp [ParentPc.work]
  next hpc =>
    obtain rfl := Option.some.inj hstep
    refine hless _ rfl ?_
    rw [hpc]
    cases s.isDone <;> simp [ParentPc.work]
  next hpc =>
    obtain rfl := Option.some.inj hstep
    exact hless _ rfl (by simp [hpc, ParentPc.work])
  next hpc =>
    split at hstep <;>
    · obtain rfl := Option.some.inj hstep
      exact hless _ rfl (by simp [hpc, ParentPc.work])
  next hpc =>
    obtain rfl := Option.some.inj hstep
    exact hless _ rfl (by rw [hpc]; exact Nat.zero_lt_one)
  next => simp at hstep

theorem run_work {s t : State o Exc} {a : Action Value Exc} (hinv : Inv s)
    (hstep : run s a = some t) : t.work < s.work := by
  cases a with
  | finish i outcome =>
      simp only [run] at hstep
      split at hstep
      next hi =>
        obtain rfl := Option.some.inj hstep
        refine Nat.add_lt_add_left (setRunner_work ?_) _
        rw [hi]
        cases outcome <;> simp [Runner.work]
      next => simp at hstep
  | store i =>
      simp only [run] at hstep
      split at hstep
      next outcome hi =>
        obtain rfl := Option.some.inj hstep
        have hless : (Runner.stored outcome).work < (s.runner i).work := by
          rw [hi]
          cases outcome <;> simp [Runner.work]
        cases outcome <;> exact Nat.add_lt_add_left (setRunner_work hless) _
      next => simp at hstep
  | storeThrows i e =>
      simp only [run] at hstep
      split at hstep
      next hi =>
        split at hstep
        next =>
          obtain rfl := Option.some.inj hstep
          refine Nat.add_lt_add_left (setRunner_work ?_) _
          rw [hi]
          exact Nat.lt_succ_self 4
        next => simp at hstep
      next => simp at hstep
  | tryComplete i =>
      simp only [run] at hstep
      split at hstep
      next hi =>
        obtain rfl := Option.some.inj hstep
        refine Nat.add_lt_add_left (setRunner_work ?_) _
        rw [hi]
        split <;> simp [Runner.work]
      next => simp at hstep
  | complete i =>
      simp only [run] at hstep
      split at hstep
      next hi =>
        obtain rfl := Option.some.inj hstep
        refine Nat.add_lt_add_left (setRunner_work ?_) _
        rw [hi]
        split <;> simp [Runner.work]
      next => simp at hstep
  | resume i =>
      simp only [run] at hstep
      split at hstep
      next outcome hi =>
        obtain rfl := Option.some.inj hstep
        have hsuspended := (hinv.parent.resuming i (by rw [hi]; rfl)).1
        have hrunners : ∑ j, ((s.setRunner i (.ended outcome)).runner j).work <
            ∑ j, (s.runner j).work :=
          setRunner_work (by rw [hi]; exact Nat.zero_lt_one)
        refine Nat.add_lt_add (?_ : ParentPc.work _ < s.parent.work) hrunners
        rw [hsuspended]
        cases s.ex <;> simp [ParentPc.work]
      next => simp at hstep
  | parent => simp [run] at hstep

theorem step_work {s t : State o Exc} {a : Action Value Exc} (hinv : Inv s)
    (hstep : step s a = some t) : t.work < s.work := by
  cases a with
  | parent => exact proceed_work hstep
  | finish i outcome => exact run_work (a := .finish i outcome) hinv hstep
  | store i => exact run_work (a := .store i) hinv hstep
  | storeThrows i e => exact run_work (a := .storeThrows i e) hinv hstep
  | tryComplete i => exact run_work (a := .tryComplete i) hinv hstep
  | complete i => exact run_work (a := .complete i) hinv hstep
  | resume i => exact run_work (a := .resume i) hinv hstep

/-- A runner does not go back to its task. -/
theorem setRunner_notRunning {s : State o Exc}
    (hs : ∀ j, s.runner j ≠ .running) {i : Fin (n + 1)} {runner : Runner Exc (Value i)}
    (hrunner : runner ≠ .running) (j : Fin (n + 1)) :
    (s.setRunner i runner).runner j ≠ .running := by
  by_cases hne : j = i
  · subst hne
    rwa [setRunner_same]
  · rw [setRunner_other s hne]
    exact hs j

theorem step_notRunning {s t : State o Exc} {a : Action Value Exc}
    (hs : ∀ j, s.runner j ≠ .running) (hstep : step s a = some t) :
    ∀ j, t.runner j ≠ .running := by
  cases a with
  | parent =>
      have hrunner : t.runner = s.runner := by
        simp only [step, proceed] at hstep
        split at hstep
        · exact (Option.some.inj hstep) ▸ rfl
        · exact (Option.some.inj hstep) ▸ rfl
        · exact (Option.some.inj hstep) ▸ rfl
        · split at hstep <;> exact (Option.some.inj hstep) ▸ rfl
        · exact (Option.some.inj hstep) ▸ rfl
        · simp at hstep
      rw [hrunner]
      exact hs
  | finish i outcome =>
      simp only [step, run] at hstep
      split at hstep
      next hi => exact absurd hi (hs i)
      next => simp at hstep
  | store i =>
      simp only [step, run] at hstep
      split at hstep
      next outcome _ =>
        obtain rfl := Option.some.inj hstep
        cases outcome <;> exact setRunner_notRunning hs (by simp)
      next => simp at hstep
  | storeThrows i e =>
      simp only [step, run] at hstep
      split at hstep
      next =>
        split at hstep
        next => exact Option.some.inj hstep ▸ setRunner_notRunning hs (by simp)
        next => simp at hstep
      next => simp at hstep
  | tryComplete i =>
      simp only [step, run] at hstep
      split at hstep
      next =>
        exact Option.some.inj hstep ▸ setRunner_notRunning hs (by split <;> simp)
      next => simp at hstep
  | complete i =>
      simp only [step, run] at hstep
      split at hstep
      next =>
        exact Option.some.inj hstep ▸ setRunner_notRunning hs (by split <;> simp)
      next => simp at hstep
  | resume i =>
      simp only [step, run] at hstep
      split at hstep
      next => exact Option.some.inj hstep ▸ setRunner_notRunning hs (by simp)
      next => simp at hstep

/-- While the parent has not returned, it or one of the runners can go on. -/
theorem Inv.enabled {s : State o Exc} (hs : Inv s) (hwakes : Wakes s)
    (hnone : ∀ i, s.runner i ≠ .running) :
    (∃ result, s.parent = .returned result) ∨
      ∃ a t, True ∧ (system o Exc).step s a = some t := by
  cases hpc : s.parent with
  | returned result => exact Or.inl ⟨result, rfl⟩
  | terminated => exact absurd hpc hs.parent.alive
  | ready =>
      exact Or.inr ⟨.parent, _, trivial, by simp [system, step, proceed, hpc]; rfl⟩
  | suspend =>
      exact Or.inr ⟨.parent, _, trivial, by simp [system, step, proceed, hpc]; rfl⟩
  | storeEx =>
      exact Or.inr ⟨.parent, _, trivial, by simp [system, step, proceed, hpc]; rfl⟩
  | read =>
      exact Or.inr ⟨.parent, _, trivial, by simp [system, step, proceed, hpc]; rfl⟩
  | exchange =>
      cases hwaiter : s.waiter <;>
        exact Or.inr ⟨.parent, _, trivial, by
          simp [system, step, proceed, hpc, hwaiter]; rfl⟩
  | suspended =>
      refine Or.inr ?_
      rcases hwakes.asleep hpc with hwaiter | ⟨i, hi⟩
      · -- Some runner has yet to count down, or the last one has yet to look.
        by_cases hdone : s.remaining = 0
        · obtain ⟨i, hi⟩ := (hwakes.published hdone).resolve_left (by simp [hwaiter])
          cases hrunner : s.runner i with
          | completing outcome =>
              exact ⟨.complete i, _, trivial, by simp [system, step, run, hrunner]; rfl⟩
          | _ => simp [hrunner, Runner.isCompleting] at hi
        · obtain ⟨i, hi⟩ := Finset.card_pos.mp
            (Nat.pos_of_ne_zero (hs.shared.remaining ▸ hdone))
          rw [State.uncounted, Finset.mem_filter] at hi
          cases hrunner : s.runner i with
          | running => exact absurd hrunner (hnone i)
          | finished outcome =>
              exact ⟨.store i, _, trivial, by simp [system, step, run, hrunner]; rfl⟩
          | stored outcome =>
              exact ⟨.tryComplete i, _, trivial, by
                simp [system, step, run, hrunner]; rfl⟩
          | _ => simp [hrunner, Runner.counted] at hi
      · cases hrunner : s.runner i with
        | resuming outcome =>
            exact ⟨.resume i, _, trivial, by simp [system, step, run, hrunner]; rfl⟩
        | _ => simp [hrunner, Runner.isResuming] at hi

/-- Once all tasks have finished the parent returns, whatever the order of the
steps. -/
theorem Inv.inevitable {s : State o Exc} (hs : Inv s) (hwakes : Wakes s)
    (hnone : ∀ i, s.runner i ≠ .running) :
    (system o Exc).Inevitable (fun _ => True)
      (fun t => ∃ result, t.parent = .returned result) s := by
  refine TransitionSystem.Inevitable.of_work
    (fun t => (Inv t ∧ Wakes t) ∧ ∀ i, t.runner i ≠ .running) State.work ?_ ?_ ?_
    ⟨⟨hs, hwakes⟩, hnone⟩
  · rintro t a u ⟨⟨ht, htwakes⟩, htnone⟩ _ hstep
    exact ⟨⟨step_inv ht hstep, step_wakes htwakes ht hstep⟩,
      step_notRunning htnone hstep⟩
  · rintro t ⟨⟨ht, htwakes⟩, htnone⟩
    exact ht.enabled htwakes htnone
  · rintro t a u ⟨⟨ht, _⟩, _⟩ _ hstep
    exact step_work ht hstep

theorem Inv.correct {s : State o Exc} (hs : Inv s) (hwakes : Wakes s) :
    Correct s where
  proceeded := fun hproceeded =>
    hs.shared.counted_of_done (hs.parent.proceeded hproceeded)
  logged := hs.shared.logged
  values := fun result hresult hnone => by
    have hdone := hs.parent.proceeded (by rw [hresult]; rfl)
    rw [hs.parent.returned result hresult]
    exact hs.shared.collect_values hdone hnone
  threw := fun result hresult i e herror => by
    rw [hs.parent.returned result hresult]
    exact hs.shared.collect_threw herror
  checked := by
    refine ⟨hs.parent.alive, fun hmissing => ?_⟩
    have hdone := hs.parent.proceeded (by rw [hmissing]; rfl)
    have hcollect := hs.parent.returned _ hmissing
    by_cases hnone : ∀ i e, (s.runner i).outcome ≠ some (.error e)
    · obtain ⟨vs, hvs, _⟩ := hs.shared.collect_values hdone hnone
      rw [hvs] at hcollect
      exact absurd hcollect (by simp)
    · push Not at hnone
      obtain ⟨i, e, herror⟩ := hnone
      obtain ⟨first, rest, _, hthrew⟩ := hs.shared.collect_threw herror
      rw [hthrew] at hcollect
      exact absurd hcollect (by simp)
  ends := fun hnone => hs.inevitable hwakes hnone

end WhenAll

end Iocoro
