/-
`when_any`: runners race for the completion of a shared state, and the parent
reads the outcome from it.  The overloads differ in where a value is kept and
in how it is taken out again; the race is the same for all of them.
-/
import Mathlib.Data.Fintype.Basic
import Mathlib.Logic.Function.Basic
import Iocoro.TransitionSystem

universe u v

namespace Iocoro

namespace WhenAny

/-- How the shared state of an overload keeps a value: `emplace` is the store in
`set_value` or `set_void_result`, `spoil` what is left of the cell when the
value's constructor throws there, and `collect` takes the value of the completed
index out, or fails the check for a missing value. -/
structure Overload {n : Nat} (Value : Fin (n + 1) → Type u) where
  Cell : Type u
  empty : Cell
  emplace : ∀ i, Value i → Cell → Cell
  canThrow : Bool
  spoil : Cell → Cell
  collect : ∀ i, Cell → Option (Value i)
  collect_emplace : ∀ i v cell, collect i (emplace i v cell) = some v

/-- `values_variant` of the variadic overload. -/
inductive ValuesVariant {n : Nat} (Value : Fin (n + 1) → Type u) where
  | monostate
  | alternative (i : Fin (n + 1)) (value : Option (Value i))
  | valueless

/-- `when_any_collect_variadic` for the completed index. -/
def ValuesVariant.collect {n : Nat} {Value : Fin (n + 1) → Type u}
    (i : Fin (n + 1)) : ValuesVariant Value → Option (Value i)
  | .alternative j value => if h : j = i then h ▸ value else none
  | _ => none

/-- `when_any(std::vector<awaitable<T>>)` for a non-void `T`. -/
def container (n : Nat) (T : Type u) :
    Overload (fun _ : Fin (n + 1) => T) where
  Cell := Option T
  empty := none
  emplace := fun _ v _ => some v
  canThrow := true
  spoil := fun _ => none
  collect := fun _ cell => cell
  collect_emplace := fun _ _ _ => rfl

/-- `when_any(std::vector<awaitable<void>>)`: nothing but the index is kept. -/
def containerVoid (n : Nat) :
    Overload (fun _ : Fin (n + 1) => PUnit.{u + 1}) where
  Cell := PUnit
  empty := ⟨⟩
  emplace := fun _ _ _ => ⟨⟩
  canThrow := false
  spoil := id
  collect := fun _ _ => some ⟨⟩
  collect_emplace := fun _ _ _ => rfl

/-- Where a runner stands.  `won` has the completion and not yet stored its
outcome; `thrown` never will, since `set_value` threw and the handler finds the
state completed. -/
inductive Runner (Exc : Type v) (T : Type u) where
  | running
  | finished (outcome : Except Exc T)
  | lost (outcome : Except Exc T)
  | won (outcome : Except Exc T)
  | thrown
  | stored (outcome : Except Exc T)
  | resuming (outcome : Except Exc T)
  | completed (outcome : Except Exc T)

/-- Its `try_complete` returned true. -/
def Runner.winner {Exc : Type v} {T : Type u} : Runner Exc T → Bool
  | .running | .finished _ | .lost _ => false
  | _ => true

/-- The outcome it has stored. -/
def Runner.outcome {Exc : Type v} {T : Type u} :
    Runner Exc T → Option (Except Exc T)
  | .stored outcome | .resuming outcome | .completed outcome => some outcome
  | _ => none

theorem Runner.winner_of_outcome {Exc : Type v} {T : Type u}
    {runner : Runner Exc T} {outcome : Except Exc T}
    (houtcome : runner.outcome = some outcome) : runner.winner = true := by
  cases runner <;> simp_all [Runner.outcome, Runner.winner]

/-- `waiter_addr`. -/
inductive Waiter where
  | null
  | parent
  | sentinel
deriving DecidableEq, Repr

/-- What `when_any` gives: an index with its value, an exception, or the failure
of a check for a missing value. -/
inductive Result {n : Nat} (Value : Fin (n + 1) → Type u) (Exc : Type v) where
  | value (i : Fin (n + 1)) (v : Value i)
  | threw (e : Exc)
  | missing

/-- The result that stands for the outcome of a task. -/
def Result.ofOutcome {n : Nat} {Value : Fin (n + 1) → Type u} {Exc : Type v}
    (i : Fin (n + 1)) : Except Exc (Value i) → Result Value Exc
  | .ok v => .value i v
  | .error e => .threw e

/-- Where the parent stands: the two looks at `is_done`, the store of the
executor, the exchange of `waiter_addr`, and the read under the lock.
`terminated` is the failure of one of the other checks. -/
inductive ParentPc {n : Nat} (Value : Fin (n + 1) → Type u) (Exc : Type v) where
  | ready
  | suspend
  | storeEx
  | exchange
  | suspended
  | read
  | returned (result : Result Value Exc)
  | terminated

/-- The parent has gone on after its `co_await`. -/
def ParentPc.proceeded {n : Nat} {Value : Fin (n + 1) → Type u} {Exc : Type v} :
    ParentPc Value Exc → Bool
  | .read | .returned _ => true
  | _ => false

variable {n : Nat} {Value : Fin (n + 1) → Type u}

structure State (o : Overload Value) (Exc : Type v) where
  done : Bool := false
  completedIndex : Fin (n + 1) := 0
  cell : o.Cell := o.empty
  firstEp : Option Exc := none
  ex : Bool := false
  waiter : Waiter := .null
  runner : ∀ i, Runner Exc (Value i) := fun _ => .running
  parent : ParentPc Value Exc := .ready

inductive Action {n : Nat} (Value : Fin (n + 1) → Type u) (Exc : Type v) where
  | finish (i : Fin (n + 1)) (outcome : Except Exc (Value i))
  | tryComplete (i : Fin (n + 1))
  | store (i : Fin (n + 1))
  | storeThrows (i : Fin (n + 1))
  | complete (i : Fin (n + 1))
  | resume (i : Fin (n + 1))
  | parent

variable {o : Overload Value} {Exc : Type v}

def State.setRunner (s : State o Exc) (i : Fin (n + 1))
    (runner : Runner Exc (Value i)) : State o Exc :=
  { s with runner := Function.update s.runner i runner }

/-- `set_value`, `set_void_result` or `set_exception`. -/
def State.store (s : State o Exc) (i : Fin (n + 1)) :
    Except Exc (Value i) → State o Exc
  | .ok v => { s with completedIndex := i, cell := o.emplace i v s.cell }
  | .error e => { s with firstEp := some (s.firstEp.getD e) }

/-- What the parent makes of the exception, the index and the value that it
reads. -/
def Overload.result (o : Overload Value) (firstEp : Option Exc)
    (index : Fin (n + 1)) (cell : o.Cell) : Result Value Exc :=
  match firstEp with
  | some e => .threw e
  | none =>
      match o.collect index cell with
      | some v => .value index v
      | none => .missing

def State.collect (s : State o Exc) : Result Value Exc :=
  o.result s.firstEp s.completedIndex s.cell

/-- The steps of a runner.  The loop in `complete` ends with one exchange of
`waiter_addr`. -/
def race (s : State o Exc) : Action Value Exc → Option (State o Exc)
  | .finish i outcome =>
      match s.runner i with
      | .running => some (s.setRunner i (.finished outcome))
      | _ => none
  | .tryComplete i =>
      match s.runner i with
      | .finished outcome => some { s.setRunner i
          (if s.done then .lost outcome else .won outcome) with done := true }
      | _ => none
  | .store i =>
      match s.runner i with
      | .won outcome =>
          some ((s.store i outcome).setRunner i (.stored outcome))
      | _ => none
  | .storeThrows i =>
      match s.runner i with
      | .won (.ok _) =>
          if o.canThrow then
            some { s.setRunner i .thrown with
              completedIndex := i, cell := o.spoil s.cell }
          else none
      | _ => none
  | .complete i =>
      match s.runner i with
      | .stored outcome => some { s.setRunner i
          (if s.waiter = .parent then .resuming outcome
            else .completed outcome) with waiter := .sentinel }
      | _ => none
  | .resume i =>
      match s.runner i with
      | .resuming outcome => some { s.setRunner i (.completed outcome) with
          parent := if s.ex then .read else .terminated }
      | _ => none
  | .parent => none

/-- The steps of the parent. -/
def proceed (s : State o Exc) : Option (State o Exc) :=
  match s.parent with
  | .ready => some { s with parent := if s.done then .read else .suspend }
  | .suspend => some { s with parent := if s.done then .read else .storeEx }
  | .storeEx => some { s with ex := true, parent := .exchange }
  | .exchange =>
      match s.waiter with
      | .null => some { s with waiter := .parent, parent := .suspended }
      | .sentinel => some { s with parent := .read }
      | .parent => some { s with parent := .terminated }
  | .read => some { s with parent := .returned s.collect }
  | _ => none

def step (s : State o Exc) (a : Action Value Exc) : Option (State o Exc) :=
  match a with
  | .parent => proceed s
  | _ => race s a

def system (o : Overload Value) (Exc : Type v) :
    TransitionSystem (State o Exc) (Action Value Exc) where
  start := {}
  step := step

/-- Some runner has stored its outcome. -/
def State.published (s : State o Exc) : Bool :=
  decide (∃ i, (s.runner i).outcome.isSome = true)

/-- The parent does not look at `is_done` while the winner has the completion
and has not stored its outcome. -/
def looksAfterStore (s : State o Exc) : Action Value Exc → Bool
  | .parent =>
      match s.parent with
      | .ready | .suspend => !s.done || s.published
      | _ => true
  | _ => true

/-- The only runner whose `try_complete` returned true has stored this
outcome. -/
def State.Won (s : State o Exc) (i : Fin (n + 1))
    (outcome : Except Exc (Value i)) : Prop :=
  (s.runner i).outcome = some outcome ∧
    ∀ j, (s.runner j).winner = true → j = i

/-- The parent goes on after the winner has stored, gives exactly the winner's
outcome, and fails no check. -/
structure Correct (s : State o Exc) : Prop where
  proceeded : s.parent.proceeded = true → ∃ i outcome, s.Won i outcome
  returned : ∀ result, s.parent = .returned result →
    ∃ i outcome, s.Won i outcome ∧ result = .ofOutcome i outcome
  checked : s.parent ≠ .terminated ∧ s.parent ≠ .returned .missing

/-! ### Invariant -/

/-- Who has won and what the shared state holds. -/
structure RaceOk (s : State o Exc) : Prop where
  undecided : s.done = false → ∀ i, (s.runner i).winner = false
  unique : ∀ i j, (s.runner i).winner = true → (s.runner j).winner = true →
    j = i
  collect : ∀ i outcome, (s.runner i).outcome = some outcome →
    s.collect = .ofOutcome i outcome
  clean : s.published = false → s.firstEp = none

/-- How the parent's place goes with the rest. -/
structure ParentOk (s : State o Exc) : Prop where
  sentinel : s.waiter = .sentinel → s.published = true
  waiting : s.waiter = .parent → s.parent = .suspended
  resuming : ∀ i outcome, s.runner i = .resuming outcome →
    s.parent = .suspended ∧ s.waiter = .sentinel
  exchange : s.parent = .exchange → s.ex = true
  suspended : s.parent = .suspended → s.ex = true
  proceeded : s.parent.proceeded = true → s.published = true
  returned : ∀ result, s.parent = .returned result → result = s.collect
  alive : s.parent ≠ .terminated

structure Inv (s : State o Exc) : Prop where
  race : RaceOk s
  parent : ParentOk s

theorem published_iff {s : State o Exc} :
    s.published = true ↔ ∃ i outcome, (s.runner i).outcome = some outcome := by
  simp only [State.published, decide_eq_true_eq, Option.isSome_iff_exists]

theorem published_eq_false_iff {s : State o Exc} :
    s.published = false ↔ ∀ i, (s.runner i).outcome = none := by
  simp [State.published]

theorem start_inv : Inv (system o Exc).start where
  race := by
    constructor <;> simp [system, Runner.winner, Runner.outcome]
  parent := by
    constructor <;> simp [system, ParentPc.proceeded]

theorem Inv.correct {s : State o Exc} (hs : Inv s) : Correct s := by
  have hwon : s.parent.proceeded = true → ∃ i outcome, s.Won i outcome ∧
      s.collect = .ofOutcome i outcome := by
    intro hproceeded
    obtain ⟨i, outcome, houtcome⟩ :=
      published_iff.mp (hs.parent.proceeded hproceeded)
    refine ⟨i, outcome, ⟨houtcome, fun j hj => ?_⟩,
      hs.race.collect i outcome houtcome⟩
    exact hs.race.unique i j (Runner.winner_of_outcome houtcome) hj
  refine ⟨?_, ?_, hs.parent.alive, ?_⟩
  · intro hproceeded
    obtain ⟨i, outcome, hi, _⟩ := hwon hproceeded
    exact ⟨i, outcome, hi⟩
  · intro result hresult
    obtain ⟨i, outcome, hi, hcollect⟩ := hwon (by rw [hresult]; rfl)
    refine ⟨i, outcome, hi, ?_⟩
    rw [hs.parent.returned result hresult, hcollect]
  · intro hmissing
    obtain ⟨i, outcome, _, hcollect⟩ := hwon (by rw [hmissing]; rfl)
    have hresult := hs.parent.returned .missing hmissing
    rw [hcollect] at hresult
    cases outcome <;> simp [Result.ofOutcome] at hresult

/-! ### The steps of the parent -/

/-- A step that neither decides the race nor stores an outcome. -/
theorem RaceOk.congr {s t : State o Exc} (hs : RaceOk s)
    (hwinner : ∀ i, (t.runner i).winner = (s.runner i).winner)
    (houtcome : ∀ i, (t.runner i).outcome = (s.runner i).outcome)
    (hdone : s.done = true → t.done = true)
    (hcollect : s.published = true → t.collect = s.collect)
    (hfirst : t.firstEp = s.firstEp) : RaceOk t := by
  refine ⟨?_, ?_, ?_, ?_⟩
  · intro hfalse i
    rw [hwinner]
    apply hs.undecided
    by_contra htrue
    rw [Bool.not_eq_false] at htrue
    rw [hdone htrue] at hfalse
    simp at hfalse
  · intro i j
    rw [hwinner, hwinner]
    exact hs.unique i j
  · intro i outcome
    rw [houtcome]
    intro hstored
    rw [hcollect (published_iff.mpr ⟨i, outcome, hstored⟩)]
    exact hs.collect i outcome hstored
  · simp only [hfirst, State.published, houtcome]
    exact hs.clean

theorem RaceOk.of_parent {s t : State o Exc} (hs : RaceOk s)
    (hrunner : t.runner = s.runner) (hdone : t.done = s.done)
    (hcollect : t.collect = s.collect) (hfirst : t.firstEp = s.firstEp) :
    RaceOk t := by
  apply hs.congr
  · exact fun i => by rw [hrunner]
  · exact fun i => by rw [hrunner]
  · rw [hdone]
    exact id
  · exact fun _ => hcollect
  · exact hfirst

/-- Before it has waited the parent is free to go anywhere but to sleep. -/
theorem ParentOk.move {s t : State o Exc} (hs : ParentOk s)
    (hbefore : s.parent ≠ .suspended) (hrunner : t.runner = s.runner)
    (hwaiter : t.waiter = s.waiter)
    (hsuspended : t.parent ≠ .suspended) (halive : t.parent ≠ .terminated)
    (hexchange : t.parent = .exchange → t.ex = true)
    (hproceeded : t.parent.proceeded = true → s.published = true)
    (hreturned : ∀ result, t.parent = .returned result → result = t.collect) :
    ParentOk t where
  sentinel := by
    rw [hwaiter, State.published, hrunner]
    exact hs.sentinel
  waiting := by
    intro hwaiting
    rw [hwaiter] at hwaiting
    exact absurd (hs.waiting hwaiting) hbefore
  resuming := by
    rw [hrunner]
    intro i outcome hresuming
    exact absurd (hs.resuming i outcome hresuming).1 hbefore
  exchange := hexchange
  suspended := fun htrue => absurd htrue hsuspended
  proceeded := by
    rw [State.published, hrunner]
    exact hproceeded
  returned := hreturned
  alive := halive

/-- A look at `is_done` that does not fall before the winner's store. -/
theorem look_inv {s : State o Exc} (hs : Inv s)
    (hbefore : s.parent ≠ .suspended) {next : ParentPc Value Exc}
    (hnext : next = .suspend ∨ next = .storeEx)
    (hlooks : s.done = true → s.published = true) :
    Inv { s with parent := if s.done then .read else next } := by
  refine ⟨hs.race.of_parent rfl rfl rfl rfl,
    ?_⟩
  cases hdone : s.done with
  | true =>
      exact hs.parent.move hbefore rfl rfl (by simp) (by simp) (by simp)
        (fun _ => hlooks hdone) (by simp)
  | false =>
      rcases hnext with rfl | rfl
      · exact hs.parent.move hbefore rfl rfl (by simp) (by simp) (by simp)
          (by simp [ParentPc.proceeded]) (by simp)
      · exact hs.parent.move hbefore rfl rfl (by simp) (by simp) (by simp)
          (by simp [ParentPc.proceeded]) (by simp)

theorem proceed_inv {s t : State o Exc} (hs : Inv s)
    (hlooks : looksAfterStore s .parent = true) (hstep : proceed s = some t) :
    Inv t := by
  have hparent := hs.parent
  unfold proceed at hstep
  split at hstep
  · next hpc =>
      obtain rfl := Option.some.inj hstep
      refine look_inv hs (by simp [hpc]) (Or.inl rfl) ?_
      intro hdone
      simpa [looksAfterStore, hpc, hdone] using hlooks
  · next hpc =>
      obtain rfl := Option.some.inj hstep
      refine look_inv hs (by simp [hpc]) (Or.inr rfl) ?_
      intro hdone
      simpa [looksAfterStore, hpc, hdone] using hlooks
  · next hpc =>
      obtain rfl := Option.some.inj hstep
      exact ⟨hs.race.of_parent rfl rfl rfl rfl,
        hparent.move (by simp [hpc]) rfl rfl (by simp) (by simp)
          (fun _ => rfl) (by simp [ParentPc.proceeded]) (by simp)⟩
  · next hpc =>
      split at hstep
      · next hwaiter =>
          obtain rfl := Option.some.inj hstep
          refine ⟨hs.race.of_parent rfl rfl rfl rfl, ?_⟩
          refine ⟨by simp, fun _ => rfl, ?_, by simp,
            fun _ => hparent.exchange hpc, by simp [ParentPc.proceeded],
            by simp, by simp⟩
          intro i outcome hresuming
          have hsuspended := (hparent.resuming i outcome hresuming).1
          simp [hpc] at hsuspended
      · next hwaiter =>
          obtain rfl := Option.some.inj hstep
          exact ⟨hs.race.of_parent rfl rfl rfl rfl,
            hparent.move (by simp [hpc]) rfl rfl (by simp) (by simp)
              (by simp) (fun _ => hparent.sentinel hwaiter) (by simp)⟩
      · next hwaiter =>
          have hsuspended := hparent.waiting hwaiter
          simp [hpc] at hsuspended
  · next hpc =>
      obtain rfl := Option.some.inj hstep
      refine ⟨hs.race.of_parent rfl rfl rfl rfl,
        hparent.move (by simp [hpc]) rfl rfl (by simp) (by simp) (by simp)
          (fun _ => hparent.proceeded (by rw [hpc]; rfl)) ?_⟩
      intro result hresult
      exact (ParentPc.returned.inj hresult).symm
  · simp at hstep

/-! ### The steps of the runners -/

theorem setRunner_winner {s : State o Exc} {i : Fin (n + 1)}
    {runner : Runner Exc (Value i)}
    (hwinner : runner.winner = (s.runner i).winner) (j : Fin (n + 1)) :
    ((s.setRunner i runner).runner j).winner = (s.runner j).winner := by
  by_cases hj : j = i
  · subst hj
    simpa [State.setRunner] using hwinner
  · simp [State.setRunner, Function.update_of_ne hj]

theorem setRunner_outcome {s : State o Exc} {i : Fin (n + 1)}
    {runner : Runner Exc (Value i)}
    (houtcome : runner.outcome = (s.runner i).outcome) (j : Fin (n + 1)) :
    ((s.setRunner i runner).runner j).outcome = (s.runner j).outcome := by
  by_cases hj : j = i
  · subst hj
    simpa [State.setRunner] using houtcome
  · simp [State.setRunner, Function.update_of_ne hj]

/-- A runner that is not resuming the parent after the step was not the one
before it. -/
theorem setRunner_resuming {s : State o Exc} {i j : Fin (n + 1)}
    {runner : Runner Exc (Value i)} {outcome : Except Exc (Value j)}
    (hrunner : ∀ outcome, runner ≠ .resuming outcome)
    (hresuming : (s.setRunner i runner).runner j = .resuming outcome) :
    s.runner j = .resuming outcome := by
  by_cases hj : j = i
  · subst hj
    simp only [State.setRunner, Function.update_self] at hresuming
    exact absurd hresuming (hrunner outcome)
  · simpa [State.setRunner, Function.update_of_ne hj] using hresuming

theorem ParentOk.congr {s t : State o Exc} (hs : ParentOk s)
    (hpublished : s.published = true → t.published = true)
    (hcollect : s.published = true → t.collect = s.collect)
    (hresuming : ∀ i outcome, t.runner i = .resuming outcome →
      s.runner i = .resuming outcome)
    (hwaiter : t.waiter = s.waiter) (hex : t.ex = s.ex)
    (hparent : t.parent = s.parent) : ParentOk t where
  sentinel := by
    rw [hwaiter]
    exact fun hsentinel => hpublished (hs.sentinel hsentinel)
  waiting := by
    rw [hwaiter, hparent]
    exact hs.waiting
  resuming := by
    rw [hwaiter, hparent]
    exact fun i outcome htrue => hs.resuming i outcome (hresuming i outcome htrue)
  exchange := by
    rw [hparent, hex]
    exact hs.exchange
  suspended := by
    rw [hparent, hex]
    exact hs.suspended
  proceeded := by
    rw [hparent]
    exact fun hproceeded => hpublished (hs.proceeded hproceeded)
  returned := by
    rw [hparent]
    intro result hresult
    rw [hcollect (hs.proceeded (by rw [hresult]; rfl))]
    exact hs.returned result hresult
  alive := by
    rw [hparent]
    exact hs.alive

/-- A runner moves without a change to the race. -/
theorem RaceOk.setRunner {s : State o Exc} (hs : RaceOk s) {i : Fin (n + 1)}
    {runner : Runner Exc (Value i)}
    (hwinner : runner.winner = (s.runner i).winner)
    (houtcome : runner.outcome = (s.runner i).outcome) :
    RaceOk (s.setRunner i runner) :=
  hs.congr (setRunner_winner hwinner) (setRunner_outcome houtcome) id
    (fun _ => rfl) rfl

/-- A runner moves without a change to the race or to the shared state. -/
theorem setRunner_inv {s : State o Exc} (hs : Inv s) {i : Fin (n + 1)}
    {runner : Runner Exc (Value i)}
    (hwinner : runner.winner = (s.runner i).winner)
    (houtcome : runner.outcome = (s.runner i).outcome)
    (hrunner : ∀ outcome, runner ≠ .resuming outcome) :
    Inv (s.setRunner i runner) where
  race := hs.race.setRunner hwinner houtcome
  parent := by
    refine hs.parent.congr ?_ (fun _ => rfl)
      (fun j outcome => setRunner_resuming hrunner) rfl rfl rfl
    simp only [State.published, setRunner_outcome houtcome]
    exact id

/-- While the winner has yet to store, nothing is published. -/
theorem RaceOk.published_of_won {s : State o Exc} (hs : RaceOk s)
    {i : Fin (n + 1)} (hwinner : (s.runner i).winner = true)
    (houtcome : (s.runner i).outcome = none) : s.published = false := by
  rw [published_eq_false_iff]
  intro j
  by_contra hsome
  obtain ⟨outcome, hstored⟩ := Option.ne_none_iff_exists'.mp hsome
  have hj := hs.unique i j hwinner (Runner.winner_of_outcome hstored)
  subst hj
  rw [houtcome] at hstored
  simp at hstored

theorem RaceOk.tryComplete {s : State o Exc} (hs : RaceOk s) {i : Fin (n + 1)}
    {outcome : Except Exc (Value i)} (hrunner : s.runner i = .finished outcome) :
    RaceOk { s.setRunner i (if s.done then .lost outcome else .won outcome) with
      done := true } := by
  cases hdone : s.done with
  | true =>
      have hlost : RaceOk (s.setRunner i (.lost outcome)) :=
        hs.setRunner (by rw [hrunner]; rfl) (by rw [hrunner]; rfl)
      exact hlost.congr (fun _ => rfl) (fun _ => rfl) (fun _ => rfl) (fun _ => rfl) rfl
  | false =>
      have hfree := hs.undecided hdone
      have houtcome : ∀ j, ((s.setRunner i (.won outcome)).runner j).outcome =
          (s.runner j).outcome := setRunner_outcome (by rw [hrunner]; rfl)
      have hwinner : ∀ j, ((s.setRunner i (.won outcome)).runner j).winner =
          true → j = i := by
        intro j hj
        by_contra hne
        simp [State.setRunner, Function.update_of_ne hne, hfree j] at hj
      refine ⟨by simp, ?_, ?_, ?_⟩
      · intro j k hj hk
        rw [hwinner j hj, hwinner k hk]
      · intro j stored hstored
        rw [← hs.collect j stored ((houtcome j).symm.trans hstored)]
        rfl
      · simp only [State.published, Bool.false_eq_true, ↓reduceIte, houtcome]
        exact hs.clean

theorem tryComplete_inv {s : State o Exc} (hs : Inv s) {i : Fin (n + 1)}
    {outcome : Except Exc (Value i)} (hrunner : s.runner i = .finished outcome) :
    Inv { s.setRunner i (if s.done then .lost outcome else .won outcome) with
      done := true } := by
  refine ⟨hs.race.tryComplete hrunner, ?_⟩
  have houtcome : ∀ j, ((s.setRunner i (if s.done then .lost outcome
      else .won outcome)).runner j).outcome = (s.runner j).outcome := by
    apply setRunner_outcome
    rw [hrunner]
    split <;> rfl
  refine hs.parent.congr ?_ (fun _ => rfl)
    (fun j stored => setRunner_resuming (by split <;> simp)) rfl rfl rfl
  simp only [State.published, houtcome]
  exact id

theorem setRunner_congr {s t : State o Exc} (hrunner : t.runner = s.runner)
    (i : Fin (n + 1)) (runner : Runner Exc (Value i)) :
    (t.setRunner i runner).runner = (s.setRunner i runner).runner := by
  change Function.update t.runner i runner = Function.update s.runner i runner
  rw [hrunner]

theorem store_fields (s : State o Exc) (i : Fin (n + 1))
    (outcome : Except Exc (Value i)) :
    (s.store i outcome).runner = s.runner ∧ (s.store i outcome).done = s.done ∧
      (s.store i outcome).waiter = s.waiter ∧ (s.store i outcome).ex = s.ex ∧
      (s.store i outcome).parent = s.parent := by
  cases outcome <;> exact ⟨rfl, rfl, rfl, rfl, rfl⟩

/-- The winner puts its outcome where the parent will find it. -/
theorem RaceOk.store {s : State o Exc} (hs : RaceOk s) {i : Fin (n + 1)}
    {outcome : Except Exc (Value i)} (hrunner : s.runner i = .won outcome) :
    RaceOk ((s.store i outcome).setRunner i (.stored outcome)) := by
  have hempty : s.published = false :=
    hs.published_of_won (by rw [hrunner]; rfl) (by rw [hrunner]; rfl)
  have hfirst := hs.clean hempty
  obtain ⟨hrunners, hdone, -, -, -⟩ := store_fields s i outcome
  have hcollect : (s.store i outcome).collect = .ofOutcome i outcome := by
    cases outcome with
    | ok v =>
        simp [State.store, State.collect, Overload.result, hfirst,
          o.collect_emplace, Result.ofOutcome]
    | error e =>
        simp [State.store, State.collect, Overload.result, hfirst,
          Result.ofOutcome]
  have hwinner : ∀ j,
      (((s.store i outcome).setRunner i (.stored outcome)).runner j).winner =
        (s.runner j).winner := by
    intro j
    rw [setRunner_winner (by rw [hrunners, hrunner]; rfl), hrunners]
  refine ⟨?_, ?_, ?_, ?_⟩
  · intro hfalse j
    rw [hwinner]
    exact hs.undecided (hdone.symm.trans hfalse) j
  · intro j k
    rw [hwinner, hwinner]
    exact hs.unique j k
  · intro j stored hstored
    have hj : j = i := by
      apply hs.unique i j (by rw [hrunner]; rfl)
      rw [← hwinner]
      exact Runner.winner_of_outcome hstored
    subst hj
    simp only [State.setRunner, Function.update_self, Runner.outcome,
      Option.some.injEq] at hstored
    subst hstored
    exact hcollect
  · intro hfalse
    rw [published_eq_false_iff] at hfalse
    have hnone := hfalse i
    simp [State.setRunner, Runner.outcome] at hnone

theorem store_inv {s : State o Exc} (hs : Inv s) {i : Fin (n + 1)}
    {outcome : Except Exc (Value i)} (hrunner : s.runner i = .won outcome) :
    Inv ((s.store i outcome).setRunner i (.stored outcome)) := by
  have hempty : s.published = false :=
    hs.race.published_of_won (by rw [hrunner]; rfl) (by rw [hrunner]; rfl)
  obtain ⟨hrunners, -, hwaiter, hex, hparent⟩ := store_fields s i outcome
  refine ⟨hs.race.store hrunner, hs.parent.congr ?_ ?_ ?_ hwaiter hex hparent⟩
  · simp [hempty]
  · simp [hempty]
  · intro j stored hresuming
    rw [← hrunners]
    exact setRunner_resuming (by simp) hresuming

/-- When the store throws nothing is published, now or later. -/
theorem RaceOk.storeThrows {s : State o Exc} (hs : RaceOk s) {i : Fin (n + 1)}
    {outcome : Except Exc (Value i)} (hrunner : s.runner i = .won outcome) :
    RaceOk { s.setRunner i .thrown with
      completedIndex := i, cell := o.spoil s.cell } := by
  have hempty : s.published = false :=
    hs.published_of_won (by rw [hrunner]; rfl) (by rw [hrunner]; rfl)
  exact hs.congr (setRunner_winner (by rw [hrunner]; rfl))
    (setRunner_outcome (by rw [hrunner]; rfl)) id (by simp [hempty]) rfl

theorem storeThrows_inv {s : State o Exc} (hs : Inv s) {i : Fin (n + 1)}
    {outcome : Except Exc (Value i)} (hrunner : s.runner i = .won outcome) :
    Inv { s.setRunner i .thrown with
      completedIndex := i, cell := o.spoil s.cell } := by
  have hempty : s.published = false :=
    hs.race.published_of_won (by rw [hrunner]; rfl) (by rw [hrunner]; rfl)
  refine ⟨hs.race.storeThrows hrunner, hs.parent.congr ?_ (by simp [hempty])
    (fun j stored => setRunner_resuming (by simp)) rfl rfl rfl⟩
  simp [hempty]

theorem RaceOk.complete {s : State o Exc} (hs : RaceOk s) {i : Fin (n + 1)}
    {outcome : Except Exc (Value i)} (hrunner : s.runner i = .stored outcome) :
    RaceOk { s.setRunner i (if s.waiter = .parent then .resuming outcome
      else .completed outcome) with waiter := .sentinel } := by
  refine hs.congr (setRunner_winner ?_) (setRunner_outcome ?_) id (fun _ => rfl) rfl
  · rw [hrunner]
    split <;> rfl
  · rw [hrunner]
    split <;> rfl

theorem complete_inv {s : State o Exc} (hs : Inv s) {i : Fin (n + 1)}
    {outcome : Except Exc (Value i)} (hrunner : s.runner i = .stored outcome) :
    Inv { s.setRunner i (if s.waiter = .parent then .resuming outcome
      else .completed outcome) with waiter := .sentinel } := by
  have houtcome : ∀ j, ((s.setRunner i (if s.waiter = .parent then
      .resuming outcome else .completed outcome)).runner j).outcome =
        (s.runner j).outcome := by
    apply setRunner_outcome
    rw [hrunner]
    split <;> rfl
  have hpublished : s.published = true :=
    published_iff.mpr ⟨i, outcome, by rw [hrunner]; rfl⟩
  have hnext : State.published { s.setRunner i (if s.waiter = .parent then
      .resuming outcome else .completed outcome) with
        waiter := .sentinel } = true := by
    simp only [State.published, houtcome]
    exact hpublished
  refine ⟨hs.race.complete hrunner, ?_⟩
  refine ⟨fun _ => hnext, by simp, ?_, hs.parent.exchange,
    hs.parent.suspended, fun _ => hnext, hs.parent.returned, hs.parent.alive⟩
  intro j stored hresuming
  refine ⟨?_, rfl⟩
  by_cases hwaiter : s.waiter = .parent
  · exact hs.parent.waiting hwaiter
  · simp only [if_neg hwaiter] at hresuming
    exact (hs.parent.resuming j stored
      (setRunner_resuming (by simp) hresuming)).1

theorem RaceOk.resume {s : State o Exc} (hs : RaceOk s) {i : Fin (n + 1)}
    {outcome : Except Exc (Value i)} (hrunner : s.runner i = .resuming outcome) :
    RaceOk { s.setRunner i (.completed outcome) with
      parent := if s.ex then .read else .terminated } :=
  hs.congr (setRunner_winner (by rw [hrunner]; rfl))
    (setRunner_outcome (by rw [hrunner]; rfl)) id (fun _ => rfl) rfl

theorem resume_inv {s : State o Exc} (hs : Inv s) {i : Fin (n + 1)}
    {outcome : Except Exc (Value i)} (hrunner : s.runner i = .resuming outcome) :
    Inv { s.setRunner i (.completed outcome) with
      parent := if s.ex then .read else .terminated } := by
  refine ⟨hs.race.resume hrunner, ?_⟩
  obtain ⟨hsuspended, hsentinel⟩ := hs.parent.resuming i outcome hrunner
  have houtcome : ∀ j, ((s.setRunner i (.completed outcome)).runner j).outcome =
      (s.runner j).outcome := setRunner_outcome (by rw [hrunner]; rfl)
  have hpublished : (s.setRunner i (.completed outcome)).published = true := by
    simp only [State.published, houtcome]
    exact hs.parent.sentinel hsentinel
  rw [if_pos (hs.parent.suspended hsuspended)]
  refine ⟨fun _ => hpublished, ?_, ?_, by simp, by simp, fun _ => hpublished,
    by simp, by simp⟩
  · intro hwaiting
    simp [State.setRunner, hsentinel] at hwaiting
  · intro j stored hresuming
    have hj := setRunner_resuming (by simp) hresuming
    -- A second runner about to resume would be a second winner.
    have heq : j = i :=
      hs.race.unique i j (by rw [hrunner]; rfl) (by rw [hj]; rfl)
    subst heq
    simp [State.setRunner] at hresuming

/-- What a step of a runner is, by its action. -/
inductive RaceStep (s : State o Exc) : Action Value Exc → State o Exc → Prop
  | finish {i : Fin (n + 1)} (outcome : Except Exc (Value i))
      (hrunner : s.runner i = .running) :
      RaceStep s (.finish i outcome) (s.setRunner i (.finished outcome))
  | tryComplete {i : Fin (n + 1)} {outcome : Except Exc (Value i)}
      (hrunner : s.runner i = .finished outcome) :
      RaceStep s (.tryComplete i) { s.setRunner i
        (if s.done then .lost outcome else .won outcome) with done := true }
  | store {i : Fin (n + 1)} {outcome : Except Exc (Value i)}
      (hrunner : s.runner i = .won outcome) :
      RaceStep s (.store i) ((s.store i outcome).setRunner i (.stored outcome))
  | storeThrows {i : Fin (n + 1)} {v : Value i} (hrunner : s.runner i = .won (.ok v))
      (hthrow : o.canThrow = true) :
      RaceStep s (.storeThrows i) { s.setRunner i .thrown with
        completedIndex := i, cell := o.spoil s.cell }
  | complete {i : Fin (n + 1)} {outcome : Except Exc (Value i)}
      (hrunner : s.runner i = .stored outcome) :
      RaceStep s (.complete i) { s.setRunner i (if s.waiter = .parent then
        .resuming outcome else .completed outcome) with waiter := .sentinel }
  | resume {i : Fin (n + 1)} {outcome : Except Exc (Value i)}
      (hrunner : s.runner i = .resuming outcome) :
      RaceStep s (.resume i) { s.setRunner i (.completed outcome) with
        parent := if s.ex then .read else .terminated }

theorem raceStep_of_race {s t : State o Exc} {a : Action Value Exc}
    (hstep : race s a = some t) : RaceStep s a t := by
  cases a with
  | finish i outcome =>
      simp only [race] at hstep
      split at hstep
      next hrunner => exact Option.some.inj hstep ▸ .finish outcome hrunner
      next => nomatch hstep
  | tryComplete i =>
      simp only [race] at hstep
      split at hstep
      next hrunner => exact Option.some.inj hstep ▸ .tryComplete hrunner
      next => nomatch hstep
  | store i =>
      simp only [race] at hstep
      split at hstep
      next hrunner => exact Option.some.inj hstep ▸ .store hrunner
      next => nomatch hstep
  | storeThrows i =>
      simp only [race] at hstep
      split at hstep
      next hrunner =>
        rw [Option.ite_none_right_eq_some] at hstep
        exact Option.some.inj hstep.2 ▸ .storeThrows hrunner hstep.1
      next => nomatch hstep
  | complete i =>
      simp only [race] at hstep
      split at hstep
      next hrunner => exact Option.some.inj hstep ▸ .complete hrunner
      next => nomatch hstep
  | resume i =>
      simp only [race] at hstep
      split at hstep
      next hrunner => exact Option.some.inj hstep ▸ .resume hrunner
      next => nomatch hstep
  | parent => nomatch hstep

/-- What a step of the parent is: it goes on, or it goes to sleep. -/
inductive ProceedStep (s : State o Exc) : State o Exc → Prop
  | onward (ex : Bool) {parent : ParentPc Value Exc} (hawake : parent ≠ .suspended) :
      ProceedStep s { s with ex := ex, parent := parent }
  | sleep (hwaiter : s.waiter = .null) :
      ProceedStep s { s with waiter := .parent, parent := .suspended }

theorem proceedStep_of_proceed {s t : State o Exc} (hstep : proceed s = some t) :
    ProceedStep s t := by
  simp only [proceed] at hstep
  split at hstep
  · exact Option.some.inj hstep ▸ .onward s.ex (by split <;> nofun)
  · exact Option.some.inj hstep ▸ .onward s.ex (by split <;> nofun)
  · exact Option.some.inj hstep ▸ .onward true nofun
  · split at hstep
    · next hwaiter => exact Option.some.inj hstep ▸ .sleep hwaiter
    · exact Option.some.inj hstep ▸ .onward s.ex nofun
    · exact Option.some.inj hstep ▸ .onward s.ex nofun
  · exact Option.some.inj hstep ▸ .onward s.ex nofun
  · nomatch hstep

/-- The race is decided once and its outcome kept, whatever the parent does. -/
theorem RaceStep.raceOk {s t : State o Exc} {a : Action Value Exc}
    (hstep : RaceStep s a t) (hs : RaceOk s) : RaceOk t := by
  cases hstep with
  | finish outcome hrunner =>
      exact hs.setRunner (by rw [hrunner]; rfl) (by rw [hrunner]; rfl)
  | tryComplete hrunner => exact hs.tryComplete hrunner
  | store hrunner => exact hs.store hrunner
  | storeThrows hrunner => exact hs.storeThrows hrunner
  | complete hrunner => exact hs.complete hrunner
  | resume hrunner => exact hs.resume hrunner

theorem race_inv {s t : State o Exc} {a : Action Value Exc} (hs : Inv s)
    (hstep : race s a = some t) : Inv t := by
  cases raceStep_of_race hstep with
  | finish outcome hrunner =>
      exact setRunner_inv hs (by rw [hrunner]; rfl) (by rw [hrunner]; rfl) (by simp)
  | tryComplete hrunner => exact tryComplete_inv hs hrunner
  | store hrunner => exact store_inv hs hrunner
  | storeThrows hrunner => exact storeThrows_inv hs hrunner
  | complete hrunner => exact complete_inv hs hrunner
  | resume hrunner => exact resume_inv hs hrunner

theorem step_inv {s t : State o Exc} {a : Action Value Exc} (hs : Inv s)
    (hlooks : looksAfterStore s a = true) (hstep : step s a = some t) :
    Inv t := by
  cases a with
  | parent => exact proceed_inv hs hlooks hstep
  | _ =>
      simp only [step] at hstep
      exact race_inv hs hstep

/-- Numerals for two tasks come from here, whether `2` is written or `1 + 1`. -/
instance (priority := 2000) neZeroTwo : @NeZero Nat Zero.ofOfNat0 (1 + 1) :=
  ⟨by decide⟩

end WhenAny

end Iocoro
