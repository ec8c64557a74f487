/-
`when_any_cancel_join`: two runners race as in `when_any`; the winner requests
stop on the other task, and the parent joins the other runner before it returns.
The race refines the race of `when_any`, so who has won and what the parent
reads is settled there; stop requests and joins are settled here.
-/
import Mathlib.Data.Fin.Basic
import Iocoro.TransitionSystem
import Iocoro.WhenAny

universe u v

namespace Iocoro

namespace CancelJoin

open WhenAny (Waiter)

/-- `result_variant`: the value of one of the two tasks. -/
abbrev Variant (Value : Fin 2 → Type u) : Type u :=
  (i : Fin 2) × Value i

/-- Where `when_or_run_one` stands.  `won` is after its `try_complete`,
`cancelled` after `request_cancel_other`; `thrown` has lost its value, since
`set_value` threw and the handler finds the state completed. -/
inductive Runner (Exc : Type v) (T : Type u) where
  | running
  | finished (outcome : Except Exc T)
  | lost (outcome : Except Exc T)
  | won (outcome : Except Exc T)
  | cancelled (outcome : Except Exc T)
  | thrown
  | stored (outcome : Except Exc T)
  | resuming (outcome : Except Exc T)
  | completed (outcome : Except Exc T)

/-- Nothing is left to do but to return. -/
def Runner.ended {Exc : Type v} {T : Type u} : Runner Exc T → Bool
  | .lost _ | .thrown | .completed _ => true
  | _ => false

/-- Its `try_complete` returned true. -/
def Runner.winner {Exc : Type v} {T : Type u} : Runner Exc T → Bool
  | .running | .finished _ | .lost _ => false
  | _ => true

/-- The outcome it has stored. -/
def Runner.outcome {Exc : Type v} {T : Type u} :
    Runner Exc T → Option (Except Exc T)
  | .stored outcome | .resuming outcome | .completed outcome => some outcome
  | _ => none

/-- Its `request_cancel_other` has run. -/
def Runner.hasCancelled {Exc : Type v} {T : Type u} : Runner Exc T → Bool
  | .cancelled _ | .thrown | .stored _ | .resuming _ | .completed _ => true
  | _ => false

/-- The coroutine of a runner and its `spawn_result_state`. -/
structure Join where
  finished : Bool := false
  done : Bool := false
  waiter : Bool := false
  resumed : Bool := false
deriving DecidableEq, Repr

/-- What the parent has read under the lock. -/
inductive Reading (Value : Fin 2 → Type u) (Exc : Type v) where
  | threw (e : Exc)
  | value (index : Fin 2) (result : Option (Variant Value))

/-- The runners that the parent joins: both on an exception, else the one that
the index does not name. -/
def Reading.joins {Value : Fin 2 → Type u} {Exc : Type v} :
    Reading Value Exc → List (Fin 2)
  | .threw _ => [0, 1]
  | .value index _ => if index = 0 then [1] else [0]

/-- What the call gives after the joins; `missing` is the failed check for the
result. -/
def Reading.result {Value : Fin 2 → Type u} {Exc : Type v} :
    Reading Value Exc → WhenAny.Result (fun _ : Fin 2 => Variant Value) Exc
  | .threw e => .threw e
  | .value index (some v) => .value index v
  | .value _ none => .missing

/-- The stages of a `co_await` of a join. -/
inductive JoinStage where
  | ready
  | suspend
  | suspended
deriving DecidableEq, Repr

inductive ParentPc (Value : Fin 2 → Type u) (Exc : Type v) where
  | ready
  | suspend
  | storeEx
  | exchange
  | suspended
  | read
  | join (stage : JoinStage) (i : Fin 2) (rest : List (Fin 2))
      (reading : Reading Value Exc)
  | returned (reading : Reading Value Exc)
  | terminated

/-- Go on with the joins that are left, or return. -/
def ParentPc.next {Value : Fin 2 → Type u} {Exc : Type v}
    (reading : Reading Value Exc) : List (Fin 2) → ParentPc Value Exc
  | [] => .returned reading
  | i :: rest => .join .ready i rest reading

variable {Value : Fin 2 → Type u} {Exc : Type v}

/-- `when_or_state` with the two spawned runners and the parent. -/
structure State (Value : Fin 2 → Type u) (Exc : Type v) where
  remaining : Nat := 1
  completedIndex : Fin 2 := 0
  result : Option (Variant Value) := none
  firstEp : Option Exc := none
  ex : Bool := false
  waiter : Waiter := .null
  stopRequested : Fin 2 → Bool := fun _ => false
  runner : ∀ i, Runner Exc (Value i) := fun _ => .running
  spawned : Fin 2 → Join := fun _ => {}
  parent : ParentPc Value Exc := .ready

inductive Action (Value : Fin 2 → Type u) (Exc : Type v) where
  | finish (i : Fin 2) (outcome : Except Exc (Value i))
  | tryComplete (i : Fin 2)
  | requestCancelOther (i : Fin 2)
  | store (i : Fin 2)
  | storeThrows (i : Fin 2)
  | complete (i : Fin 2)
  | resume (i : Fin 2)
  | runnerReturns (i : Fin 2)
  | joinComplete (i : Fin 2)
  | parent

/-- The task that `request_cancel_other` stops. -/
def other (i : Fin 2) : Fin 2 :=
  if i = 0 then 1 else 0

def State.setRunner (s : State Value Exc) (i : Fin 2)
    (runner : Runner Exc (Value i)) : State Value Exc :=
  { s with runner := Function.update s.runner i runner }

def State.setSpawned (s : State Value Exc) (i : Fin 2) (join : Join) :
    State Value Exc :=
  { s with spawned := Function.update s.spawned i join }

/-- `set_value` or `set_exception`. -/
def State.store (s : State Value Exc) (i : Fin 2) :
    Except Exc (Value i) → State Value Exc
  | .ok v => { s with completedIndex := i, result := some ⟨i, v⟩ }
  | .error e => { s with firstEp := some (s.firstEp.getD e) }

/-- The parent's read of `first_ep`, `completed_index` and `result`. -/
def State.reading (s : State Value Exc) : Reading Value Exc :=
  match s.firstEp with
  | some e => .threw e
  | none => .value s.completedIndex s.result

/-- The steps of the runners.  The loops in `try_complete` and `complete` end
with one exchange. -/
def race (s : State Value Exc) :
    Action Value Exc → Option (State Value Exc)
  | .finish i outcome =>
      match s.runner i with
      | .running => some (s.setRunner i (.finished outcome))
      | _ => none
  | .tryComplete i =>
      match s.runner i with
      | .finished outcome => some { s.setRunner i
          (if s.remaining = 1 then .won outcome else .lost outcome) with
            remaining := s.remaining - 1 }
      | _ => none
  | .requestCancelOther i =>
      match s.runner i with
      | .won outcome => some { s.setRunner i (.cancelled outcome) with
          stopRequested := Function.update s.stopRequested (other i) true }
      | _ => none
  | .store i =>
      match s.runner i with
      | .cancelled outcome =>
          some ((s.store i outcome).setRunner i (.stored outcome))
      | _ => none
  | .storeThrows i =>
      match s.runner i with
      | .cancelled (.ok _) => some { s.setRunner i .thrown with
          completedIndex := i, result := none }
      | _ => none
  | .complete i =>
      match s.runner i with
      | .stored outcome => some { s.setRunner i
          (if s.waiter = .parent then .resuming outcome
            else .completed outcome) with waiter := .sentinel }
      | _ => none
  | .resume i =>
      match s.runner i with
      | .resuming outcome => some { s.setRunner i (.completed outcome) with
          parent := if s.ex then .read else .terminated }
      | _ => none
  | _ => none

/-- The runner returns to its entry point, which completes the join. -/
def leave (s : State Value Exc) :
    Action Value Exc → Option (State Value Exc)
  | .runnerReturns i =>
      if (s.runner i).ended then
        some (s.setSpawned i { s.spawned i with finished := true })
      else none
  | .joinComplete i =>
      if (s.spawned i).finished && !(s.spawned i).done then
        some (s.setSpawned i { s.spawned i with
          done := true, waiter := false, resumed := (s.spawned i).waiter })
      else none
  | _ => none

/-- One stage of `co_await` on the join of runner `i`. -/
def joinStep (s : State Value Exc) (i : Fin 2) (rest : List (Fin 2))
    (reading : Reading Value Exc) : JoinStage → Option (State Value Exc)
  | .ready =>
      if (s.spawned i).done then some { s with parent := .next reading rest }
      else some { s with parent := .join .suspend i rest reading }
  | .suspend =>
      if (s.spawned i).done then some { s with parent := .next reading rest }
      else some { s.setSpawned i { s.spawned i with waiter := true } with
        parent := .join .suspended i rest reading }
  | .suspended =>
      if (s.spawned i).resumed then some { s with parent := .next reading rest }
      else none

/-- The steps of the parent. -/
def proceed (s : State Value Exc) : Option (State Value Exc) :=
  match s.parent with
  | .ready =>
      some { s with parent := if s.remaining = 0 then .read else .suspend }
  | .suspend =>
      some { s with parent := if s.remaining = 0 then .read else .storeEx }
  | .storeEx => some { s with ex := true, parent := .exchange }
  | .exchange =>
      match s.waiter with
      | .null => some { s with waiter := .parent, parent := .suspended }
      | .sentinel => some { s with parent := .read }
      | .parent => some { s with parent := .terminated }
  | .read => some { s with parent := .next s.reading s.reading.joins }
  | .join stage i rest reading => joinStep s i rest reading stage
  | _ => none

def step (s : State Value Exc) (a : Action Value Exc) :
    Option (State Value Exc) :=
  match a with
  | .parent => proceed s
  | .runnerReturns _ | .joinComplete _ => leave s a
  | _ => race s a

def system (Value : Fin 2 → Type u) (Exc : Type v) :
    TransitionSystem (State Value Exc) (Action Value Exc) where
  start := {}
  step := step

/-- Some runner has stored its outcome. -/
def State.published (s : State Value Exc) : Bool :=
  decide (∃ i, (s.runner i).outcome.isSome = true)

/-- The parent does not look at `is_done` while the winner has the completion
and has not stored its outcome. -/
def looksAfterStore (s : State Value Exc) : Action Value Exc → Bool
  | .parent =>
      match s.parent with
      | .ready | .suspend => s.remaining != 0 || s.published
      | _ => true
  | _ => true

/-- The only runner whose `try_complete` returned true has stored this
outcome. -/
def State.Won (s : State Value Exc) (i : Fin 2)
    (outcome : Except Exc (Value i)) : Prop :=
  (s.runner i).outcome = some outcome ∧
    ∀ j, (s.runner j).winner = true → j = i

/-- When the call returns or rethrows it gives the winner's outcome, stop has
been requested on the other task and the other runner has finished; no check
fails. -/
structure Correct (s : State Value Exc) : Prop where
  returned : ∀ reading, s.parent = .returned reading →
    ∃ i outcome, s.Won i outcome ∧
      reading.result = .ofOutcome i (outcome.map (Sigma.mk i)) ∧
      s.stopRequested (other i) = true ∧
      (s.runner (other i)).ended = true ∧
      (s.spawned (other i)).finished = true
  checked : s.parent ≠ .terminated ∧
    ∀ reading, s.parent = .returned reading → reading.result ≠ .missing

/-! ### The race as a race of `when_any` -/

/-- Where the runner of `when_any` would stand; `T` is put into the variant. -/
def Runner.toRace {T : Type u} {T' : Type u} (f : T → T') :
    Runner Exc T → WhenAny.Runner Exc T'
  | .running => .running
  | .finished outcome => .finished (outcome.map f)
  | .lost outcome => .lost (outcome.map f)
  | .won outcome => .won (outcome.map f)
  | .cancelled outcome => .won (outcome.map f)
  | .thrown => .thrown
  | .stored outcome => .stored (outcome.map f)
  | .resuming outcome => .resuming (outcome.map f)
  | .completed outcome => .completed (outcome.map f)

/-- The joins come after the read, where `when_any` has returned. -/
def ParentPc.toRace : ParentPc Value Exc →
    WhenAny.ParentPc (fun _ : Fin 2 => Variant Value) Exc
  | .ready => .ready
  | .suspend => .suspend
  | .storeEx => .storeEx
  | .exchange => .exchange
  | .suspended => .suspended
  | .read => .read
  | .join _ _ _ reading => .returned reading.result
  | .returned reading => .returned reading.result
  | .terminated => .terminated

/-- The shared state as that of `when_any` for a vector of variants: `done` is
`remaining == 0`. -/
def State.toRace (s : State Value Exc) :
    WhenAny.State (WhenAny.container 1 (Variant Value)) Exc where
  done := s.remaining == 0
  completedIndex := s.completedIndex
  cell := s.result
  firstEp := s.firstEp
  ex := s.ex
  waiter := s.waiter
  runner := fun i => (s.runner i).toRace (Sigma.mk i)
  parent := s.parent.toRace

theorem Runner.toRace_winner {T T' : Type u} (f : T → T')
    (runner : Runner Exc T) : (runner.toRace f).winner = runner.winner := by
  cases runner <;> rfl

theorem Runner.toRace_outcome {T T' : Type u} (f : T → T')
    (runner : Runner Exc T) :
    (runner.toRace f).outcome = runner.outcome.map (Except.map f) := by
  cases runner <;> rfl

theorem toRace_published (s : State Value Exc) :
    s.toRace.published = s.published := by
  simp [WhenAny.State.published, State.published, State.toRace,
    Runner.toRace_outcome]

theorem toRace_collect (s : State Value Exc) :
    s.toRace.collect = s.reading.result := by
  cases hep : s.firstEp with
  | some e =>
      simp [WhenAny.State.collect, WhenAny.Overload.result, State.toRace,
        State.reading, Reading.result, hep]
  | none =>
      cases hresult : s.result <;>
        simp [WhenAny.State.collect, WhenAny.Overload.result, State.toRace,
          State.reading, Reading.result, WhenAny.container, hep, hresult]

theorem ParentPc.next_toRace (reading : Reading Value Exc)
    (left : List (Fin 2)) :
    (ParentPc.next reading left).toRace = .returned reading.result := by
  cases left <;> rfl

theorem toRace_parent {s : State Value Exc} {pc : ParentPc Value Exc}
    (hpc : pc.toRace = s.parent.toRace) :
    State.toRace { s with parent := pc } = s.toRace := by
  change { s.toRace with parent := pc.toRace } = s.toRace
  rw [hpc]
  rfl

theorem toRace_setRunner (s : State Value Exc) (i : Fin 2)
    (runner : Runner Exc (Value i)) :
    (s.setRunner i runner).toRace =
      s.toRace.setRunner i (runner.toRace (Sigma.mk i)) := by
  have hrunner : (s.setRunner i runner).toRace.runner =
      Function.update s.toRace.runner i (runner.toRace (Sigma.mk i)) := by
    funext j
    by_cases hj : j = i
    · subst hj
      simp [State.toRace, State.setRunner]
    · simp [State.toRace, State.setRunner, Function.update_of_ne hj]
  simp only [WhenAny.State.setRunner, ← hrunner]
  rfl

theorem toRace_store (s : State Value Exc) (i : Fin 2)
    (outcome : Except Exc (Value i)) :
    (s.store i outcome).toRace =
      s.toRace.store i (outcome.map (Sigma.mk i)) := by
  cases outcome <;> rfl

/-- The step of a runner of `when_any` that a step of a runner is. -/
def Action.toRace : Action Value Exc →
    Option (WhenAny.Action (fun _ : Fin 2 => Variant Value) Exc)
  | .finish i outcome => some (.finish i (outcome.map (Sigma.mk i)))
  | .tryComplete i => some (.tryComplete i)
  | .store i => some (.store i)
  | .storeThrows i => some (.storeThrows i)
  | .complete i => some (.complete i)
  | .resume i => some (.resume i)
  | _ => none

theorem Action.toRace_ne_parent {a : Action Value Exc}
    {b : WhenAny.Action (fun _ : Fin 2 => Variant Value) Exc}
    (hb : a.toRace = some b) : b ≠ .parent := by
  rintro rfl
  cases a <;> simp [Action.toRace] at hb

/-- Every step of a runner is one of a runner of `when_any`, or leaves what the
race sees as it is. -/
theorem race_toRace {s t : State Value Exc} {a : Action Value Exc}
    (hremaining : s.remaining ≤ 1) (hstep : race s a = some t) :
    a.toRace = none ∧ t.toRace = s.toRace ∨
      ∃ b, a.toRace = some b ∧ WhenAny.race s.toRace b = some t.toRace := by
  have hto : ∀ i, s.toRace.runner i = (s.runner i).toRace (Sigma.mk i) :=
    fun _ => rfl
  cases a with
  | finish i outcome =>
      simp only [race] at hstep
      split at hstep
      · next hrunner =>
          obtain rfl := Option.some.inj hstep
          refine Or.inr ⟨_, rfl, ?_⟩
          simp only [WhenAny.race, hto, hrunner, Runner.toRace,
            toRace_setRunner]
      · simp at hstep
  | tryComplete i =>
      simp only [race] at hstep
      split at hstep
      · next outcome hrunner =>
          obtain rfl := Option.some.inj hstep
          refine Or.inr ⟨_, rfl, ?_⟩
          simp only [WhenAny.race, hto, hrunner, Runner.toRace]
          change _ = some { (s.setRunner i (if s.remaining = 1 then
            .won outcome else .lost outcome)).toRace with
              done := s.remaining - 1 == 0 }
          rw [toRace_setRunner]
          have hcases : s.remaining = 0 ∨ s.remaining = 1 := by omega
          rcases hcases with hcase | hcase <;>
            simp [hcase, State.toRace, Runner.toRace]
      · simp at hstep
  | requestCancelOther i =>
      simp only [race] at hstep
      split at hstep
      · next outcome hrunner =>
          obtain rfl := Option.some.inj hstep
          refine Or.inl ⟨rfl, ?_⟩
          change (s.setRunner i (.cancelled outcome)).toRace = s.toRace
          have hsame : (Runner.cancelled outcome).toRace (Sigma.mk i) =
              s.toRace.runner i := by
            rw [hto, hrunner]
            rfl
          rw [toRace_setRunner, hsame, WhenAny.State.setRunner,
            Function.update_eq_self]
      · simp at hstep
  | store i =>
      simp only [race] at hstep
      split at hstep
      · next outcome hrunner =>
          obtain rfl := Option.some.inj hstep
          refine Or.inr ⟨_, rfl, ?_⟩
          simp only [WhenAny.race, hto, hrunner, Runner.toRace,
            toRace_setRunner, toRace_store]
      · simp at hstep
  | storeThrows i =>
      simp only [race] at hstep
      split at hstep
      · next v hrunner =>
          obtain rfl := Option.some.inj hstep
          refine Or.inr ⟨_, rfl, ?_⟩
          simp only [WhenAny.race, hto, hrunner, Runner.toRace, Except.map]
          exact congrArg (fun race : WhenAny.State
            (WhenAny.container 1 (Variant Value)) Exc => some { race with
              completedIndex := i
              cell := (WhenAny.container 1 (Variant Value)).spoil race.cell })
            (toRace_setRunner s i .thrown).symm
      · simp at hstep
  | complete i =>
      simp only [race] at hstep
      split at hstep
      · next outcome hrunner =>
          obtain rfl := Option.some.inj hstep
          refine Or.inr ⟨_, rfl, ?_⟩
          simp only [WhenAny.race, hto, hrunner, Runner.toRace]
          change _ = some { (s.setRunner i (if s.waiter = .parent then
            .resuming outcome else .completed outcome)).toRace with
              waiter := .sentinel }
          rw [toRace_setRunner]
          by_cases hwaiter : s.waiter = .parent <;>
            simp [hwaiter, State.toRace, Runner.toRace]
      · simp at hstep
  | resume i =>
      simp only [race] at hstep
      split at hstep
      · next outcome hrunner =>
          obtain rfl := Option.some.inj hstep
          refine Or.inr ⟨_, rfl, ?_⟩
          simp only [WhenAny.race, hto, hrunner, Runner.toRace]
          change _ = some { (s.setRunner i (.completed outcome)).toRace with
            parent := ParentPc.toRace (if s.ex then .read else .terminated) }
          rw [toRace_setRunner]
          cases hex : s.ex <;>
            simp [hex, State.toRace, Runner.toRace, ParentPc.toRace]
      · simp at hstep
  | _ => simp [race] at hstep

theorem leave_toRace {s t : State Value Exc} {a : Action Value Exc}
    (hstep : leave s a = some t) : t.toRace = s.toRace := by
  cases a with
  | runnerReturns i =>
      simp only [leave, Option.ite_none_right_eq_some, Option.some.injEq]
        at hstep
      obtain ⟨_, rfl⟩ := hstep
      rfl
  | joinComplete i =>
      simp only [leave, Option.ite_none_right_eq_some, Option.some.injEq]
        at hstep
      obtain ⟨_, rfl⟩ := hstep
      rfl
  | _ => simp [leave] at hstep

/-- The joins leave what the race sees as it is. -/
theorem joinStep_toRace {s t : State Value Exc} {i : Fin 2}
    {rest : List (Fin 2)} {reading : Reading Value Exc} {stage : JoinStage}
    (hpc : s.parent = .join stage i rest reading)
    (hstep : joinStep s i rest reading stage = some t) :
    t.toRace = s.toRace := by
  have hnext : State.toRace { s with parent := .next reading rest } =
      s.toRace := by
    apply toRace_parent
    rw [ParentPc.next_toRace, hpc]
    rfl
  cases stage with
  | ready =>
      simp only [joinStep] at hstep
      split at hstep <;> obtain rfl := Option.some.inj hstep
      · exact hnext
      · exact toRace_parent (by rw [hpc]; rfl)
  | suspend =>
      simp only [joinStep] at hstep
      split at hstep <;> obtain rfl := Option.some.inj hstep
      · exact hnext
      · exact toRace_parent (s := s) (by rw [hpc]; rfl)
  | suspended =>
      simp only [joinStep, Option.ite_none_right_eq_some, Option.some.injEq]
        at hstep
      obtain ⟨_, rfl⟩ := hstep
      exact hnext

/-- Every step of the parent is one of the parent of `when_any`, or is a join. -/
theorem proceed_race {s t : State Value Exc} (hstep : proceed s = some t) :
    t.toRace = s.toRace ∨ WhenAny.proceed s.toRace = some t.toRace := by
  have hparent : s.toRace.parent = s.parent.toRace := rfl
  unfold proceed at hstep
  split at hstep
  · next hpc =>
      obtain rfl := Option.some.inj hstep
      refine Or.inr ?_
      simp only [WhenAny.proceed, hparent, hpc, ParentPc.toRace]
      by_cases hremaining : s.remaining = 0 <;>
        simp [hremaining, State.toRace, ParentPc.toRace]
  · next hpc =>
      obtain rfl := Option.some.inj hstep
      refine Or.inr ?_
      simp only [WhenAny.proceed, hparent, hpc, ParentPc.toRace]
      by_cases hremaining : s.remaining = 0 <;>
        simp [hremaining, State.toRace, ParentPc.toRace]
  · next hpc =>
      obtain rfl := Option.some.inj hstep
      exact Or.inr (by simp [WhenAny.proceed, State.toRace, hpc, ParentPc.toRace])
  · next hpc =>
      refine Or.inr ?_
      split at hstep <;> obtain rfl := Option.some.inj hstep <;>
        simp [WhenAny.proceed, State.toRace, ParentPc.toRace, *]
  · next hpc =>
      obtain rfl := Option.some.inj hstep
      refine Or.inr ?_
      simp only [WhenAny.proceed, hparent, hpc, ParentPc.toRace,
        toRace_collect]
      rw [← ParentPc.next_toRace s.reading s.reading.joins]
      rfl
  · next hpc => exact Or.inl (joinStep_toRace hpc hstep)
  · simp at hstep

/-- The looks of the parent are those of the parent of `when_any`. -/
theorem looks_toRace {s : State Value Exc}
    (hlooks : looksAfterStore s .parent = true) :
    WhenAny.looksAfterStore s.toRace .parent = true := by
  have hparent : s.toRace.parent = s.parent.toRace := rfl
  have hdone : s.toRace.done = (s.remaining == 0) := rfl
  cases hpc : s.parent <;>
    simp_all [looksAfterStore, WhenAny.looksAfterStore, ParentPc.toRace,
      toRace_published]

theorem proceed_toRace {s t : State Value Exc}
    (hlooks : looksAfterStore s .parent = true) (hstep : proceed s = some t) :
    t.toRace = s.toRace ∨
      WhenAny.looksAfterStore s.toRace .parent = true ∧
        WhenAny.proceed s.toRace = some t.toRace :=
  (proceed_race hstep).imp id fun hproceed => ⟨looks_toRace hlooks, hproceed⟩

/-! ### Stop requests and joins -/

/-- What the parent has read and the joins that are left. -/
def ParentPc.owes : ParentPc Value Exc →
    Option (Reading Value Exc × List (Fin 2))
  | .join _ i rest reading => some (reading, i :: rest)
  | .returned reading => some (reading, [])
  | _ => none

theorem ParentPc.next_owes (reading : Reading Value Exc)
    (left : List (Fin 2)) :
    (ParentPc.next reading left).owes = some (reading, left) := by
  cases left <;> rfl

/-- The winner stops the other task before it stores, and a join ends after its
runner has. -/
structure JoinOk (s : State Value Exc) : Prop where
  remaining : s.remaining ≤ 1
  stop : ∀ i, (s.runner i).hasCancelled = true →
    s.stopRequested (other i) = true
  ended : ∀ i, (s.spawned i).finished = true → (s.runner i).ended = true
  finished : ∀ i, (s.spawned i).done = true → (s.spawned i).finished = true
  resumed : ∀ i, (s.spawned i).resumed = true → (s.spawned i).done = true
  owes : ∀ reading left, s.parent.owes = some (reading, left) →
    ∀ i ∈ reading.joins, i ∈ left ∨ (s.spawned i).done = true

theorem start_joinOk : JoinOk (system Value Exc).start := by
  constructor <;> simp [system, Runner.hasCancelled, ParentPc.owes]

/-- The parent moves, and a change to the fields that no clause reads. -/
theorem JoinOk.move {s t : State Value Exc} (hs : JoinOk s)
    (hremaining : t.remaining = s.remaining) (hrunner : t.runner = s.runner)
    (hstop : t.stopRequested = s.stopRequested)
    (hspawned : t.spawned = s.spawned)
    (howes : ∀ reading left, t.parent.owes = some (reading, left) →
      ∀ i ∈ reading.joins, i ∈ left ∨ (s.spawned i).done = true) :
    JoinOk t where
  remaining := hremaining ▸ hs.remaining
  stop := by
    rw [hrunner, hstop]
    exact hs.stop
  ended := by
    rw [hrunner, hspawned]
    exact hs.ended
  finished := by
    rw [hspawned]
    exact hs.finished
  resumed := by
    rw [hspawned]
    exact hs.resumed
  owes := by
    rw [hspawned]
    exact howes

/-- The parent has joined all that it has to except `left`. -/
theorem JoinOk.next {s : State Value Exc} (hs : JoinOk s)
    (reading : Reading Value Exc) (left : List (Fin 2))
    (hleft : ∀ i ∈ reading.joins, i ∈ left ∨ (s.spawned i).done = true) :
    JoinOk { s with parent := .next reading left } := by
  refine hs.move rfl rfl rfl rfl ?_
  intro reading' left' howes
  rw [ParentPc.next_owes] at howes
  obtain ⟨rfl, rfl⟩ := Prod.mk.inj (Option.some.inj howes)
  exact hleft

/-- After the join of `i` the rest are left. -/
theorem JoinOk.joined {s : State Value Exc} (hs : JoinOk s) {i : Fin 2}
    {rest : List (Fin 2)} {reading : Reading Value Exc} {stage : JoinStage}
    (hpc : s.parent = .join stage i rest reading)
    (hdone : (s.spawned i).done = true) :
    JoinOk { s with parent := .next reading rest } := by
  apply hs.next
  intro j hj
  have howes := hs.owes reading (i :: rest) (by rw [hpc]; rfl) j hj
  rw [List.mem_cons] at howes
  rcases howes with (rfl | hrest) | hjoined
  · exact Or.inr hdone
  · exact Or.inl hrest
  · exact Or.inr hjoined

/-- A change to one spawned runner that loses none of its progress. -/
theorem setSpawned_joinOk {s : State Value Exc} (hs : JoinOk s) {i : Fin 2}
    {join : Join}
    (hended : join.finished = true → (s.runner i).ended = true)
    (hfinished : join.done = true → join.finished = true)
    (hresumed : join.resumed = true → join.done = true)
    (hdone : (s.spawned i).done = true → join.done = true) :
    JoinOk (s.setSpawned i join) where
  remaining := hs.remaining
  stop := hs.stop
  ended := by
    intro j
    by_cases hj : j = i
    · subst hj
      simpa [State.setSpawned] using hended
    · simpa [State.setSpawned, Function.update_of_ne hj] using hs.ended j
  finished := by
    intro j
    by_cases hj : j = i
    · subst hj
      simpa [State.setSpawned] using hfinished
    · simpa [State.setSpawned, Function.update_of_ne hj] using hs.finished j
  resumed := by
    intro j
    by_cases hj : j = i
    · subst hj
      simpa [State.setSpawned] using hresumed
    · simpa [State.setSpawned, Function.update_of_ne hj] using hs.resumed j
  owes := by
    intro reading left howes j hj
    refine (hs.owes reading left howes j hj).imp id ?_
    intro hjoined
    by_cases hji : j = i
    · subst hji
      simpa [State.setSpawned] using hdone hjoined
    · simpa [State.setSpawned, Function.update_of_ne hji] using hjoined

theorem leave_joinOk {s t : State Value Exc} {a : Action Value Exc}
    (hs : JoinOk s) (hstep : leave s a = some t) : JoinOk t := by
  cases a with
  | runnerReturns i =>
      simp only [leave, Option.ite_none_right_eq_some, Option.some.injEq]
        at hstep
      obtain ⟨hended, rfl⟩ := hstep
      exact setSpawned_joinOk hs (fun _ => hended) (fun _ => rfl)
        (hs.resumed i) id
  | joinComplete i =>
      simp only [leave, Option.ite_none_right_eq_some, Option.some.injEq,
        Bool.and_eq_true] at hstep
      obtain ⟨⟨hfinished, _⟩, rfl⟩ := hstep
      exact setSpawned_joinOk hs (hs.ended i) (fun _ => hfinished)
        (fun _ => rfl) (fun _ => rfl)
  | _ => simp [leave] at hstep

theorem joinStep_joinOk {s t : State Value Exc} (hs : JoinOk s) {i : Fin 2}
    {rest : List (Fin 2)} {reading : Reading Value Exc} {stage : JoinStage}
    (hpc : s.parent = .join stage i rest reading)
    (hstep : joinStep s i rest reading stage = some t) : JoinOk t := by
  have howes : ∀ reading' left, some (reading, i :: rest) =
      some (reading', left) → ∀ j ∈ reading'.joins,
        j ∈ left ∨ (s.spawned j).done = true := by
    have hold := hs.owes
    rw [hpc] at hold
    exact hold
  cases stage with
  | ready =>
      simp only [joinStep] at hstep
      split at hstep <;> obtain rfl := Option.some.inj hstep
      · next hdone => exact hs.joined hpc hdone
      · exact hs.move rfl rfl rfl rfl howes
  | suspend =>
      simp only [joinStep] at hstep
      split at hstep <;> obtain rfl := Option.some.inj hstep
      · next hdone => exact hs.joined hpc hdone
      · have hmoved : JoinOk
            { s with parent := .join .suspended i rest reading } :=
          hs.move rfl rfl rfl rfl howes
        exact setSpawned_joinOk hmoved (hs.ended i) (hs.finished i)
          (hs.resumed i) id
  | suspended =>
      simp only [joinStep, Option.ite_none_right_eq_some, Option.some.injEq]
        at hstep
      obtain ⟨hresumed, rfl⟩ := hstep
      exact hs.joined hpc (hs.resumed i hresumed)

theorem proceed_joinOk {s t : State Value Exc} (hs : JoinOk s)
    (hstep : proceed s = some t) : JoinOk t := by
  unfold proceed at hstep
  split at hstep
  · obtain rfl := Option.some.inj hstep
    refine hs.move rfl rfl rfl rfl ?_
    by_cases hremaining : s.remaining = 0 <;>
      simp [hremaining, ParentPc.owes]
  · obtain rfl := Option.some.inj hstep
    refine hs.move rfl rfl rfl rfl ?_
    by_cases hremaining : s.remaining = 0 <;>
      simp [hremaining, ParentPc.owes]
  · obtain rfl := Option.some.inj hstep
    exact hs.move rfl rfl rfl rfl (by simp [ParentPc.owes])
  · split at hstep <;> obtain rfl := Option.some.inj hstep <;>
      exact hs.move rfl rfl rfl rfl (by simp [ParentPc.owes])
  · obtain rfl := Option.some.inj hstep
    exact hs.next _ _ (fun _ hi => Or.inl hi)
  · next hpc => exact joinStep_joinOk hs hpc hstep
  · simp at hstep

/-- A runner that has not ended moves. -/
theorem setRunner_joinOk {s : State Value Exc} (hs : JoinOk s) {i : Fin 2}
    {runner : Runner Exc (Value i)} (hlive : (s.runner i).ended = false)
    (hstop : runner.hasCancelled = true → s.stopRequested (other i) = true) :
    JoinOk (s.setRunner i runner) where
  remaining := hs.remaining
  stop := by
    intro j
    by_cases hj : j = i
    · subst hj
      simpa [State.setRunner] using hstop
    · simpa [State.setRunner, Function.update_of_ne hj] using hs.stop j
  ended := by
    intro j hfinished
    by_cases hj : j = i
    · subst hj
      rw [hs.ended j hfinished] at hlive
      simp at hlive
    · simpa [State.setRunner, Function.update_of_ne hj] using
        hs.ended j hfinished
  finished := hs.finished
  resumed := hs.resumed
  owes := hs.owes

theorem requestStop_joinOk {s : State Value Exc} (hs : JoinOk s) (i : Fin 2) :
    JoinOk { s with
      stopRequested := Function.update s.stopRequested i true } where
  remaining := hs.remaining
  stop := by
    intro j hj
    change Function.update s.stopRequested i true (other j) = true
    by_cases hji : other j = i
    · rw [hji]
      exact Function.update_self ..
    · rw [Function.update_of_ne hji]
      exact hs.stop j hj
  ended := hs.ended
  finished := hs.finished
  resumed := hs.resumed
  owes := hs.owes

theorem race_joinOk {s t : State Value Exc} {a : Action Value Exc}
    (hs : JoinOk s) (hstep : race s a = some t) : JoinOk t := by
  cases a with
  | finish i outcome =>
      simp only [race] at hstep
      split at hstep
      · next hrunner =>
          obtain rfl := Option.some.inj hstep
          exact setRunner_joinOk hs (by rw [hrunner]; rfl)
            (by simp [Runner.hasCancelled])
      · simp at hstep
  | tryComplete i =>
      simp only [race] at hstep
      split at hstep
      · next outcome hrunner =>
          obtain rfl := Option.some.inj hstep
          have hset : JoinOk (s.setRunner i (if s.remaining = 1 then
              .won outcome else .lost outcome)) := by
            apply setRunner_joinOk hs (by rw [hrunner]; rfl)
            split <;> simp [Runner.hasCancelled]
          have hremaining := hs.remaining
          exact ⟨by change s.remaining - 1 ≤ 1; omega, hset.stop, hset.ended,
            hset.finished, hset.resumed, hset.owes⟩
      · simp at hstep
  | requestCancelOther i =>
      simp only [race] at hstep
      split at hstep
      · next outcome hrunner =>
          obtain rfl := Option.some.inj hstep
          exact setRunner_joinOk (requestStop_joinOk hs (other i))
            (by change (s.runner i).ended = false; rw [hrunner]; rfl)
            (fun _ => Function.update_self ..)
      · simp at hstep
  | store i =>
      simp only [race] at hstep
      split at hstep
      · next outcome hrunner =>
          obtain rfl := Option.some.inj hstep
          have hset : JoinOk (s.setRunner i (.stored outcome)) :=
            setRunner_joinOk hs (by rw [hrunner]; rfl)
              (fun _ => hs.stop i (by rw [hrunner]; rfl))
          cases outcome <;>
            exact ⟨hset.remaining, hset.stop, hset.ended, hset.finished,
              hset.resumed, hset.owes⟩
      · simp at hstep
  | storeThrows i =>
      simp only [race] at hstep
      split at hstep
      · next v hrunner =>
          obtain rfl := Option.some.inj hstep
          have hset : JoinOk (s.setRunner i .thrown) :=
            setRunner_joinOk hs (by rw [hrunner]; rfl)
              (fun _ => hs.stop i (by rw [hrunner]; rfl))
          exact hset.move rfl rfl rfl rfl hset.owes
      · simp at hstep
  | complete i =>
      simp only [race] at hstep
      split at hstep
      · next outcome hrunner =>
          obtain rfl := Option.some.inj hstep
          have hset : JoinOk (s.setRunner i (if s.waiter = .parent then
              .resuming outcome else .completed outcome)) :=
            setRunner_joinOk hs (by rw [hrunner]; rfl)
              (fun _ => hs.stop i (by rw [hrunner]; rfl))
          exact hset.move rfl rfl rfl rfl hset.owes
      · simp at hstep
  | resume i =>
      simp only [race] at hstep
      split at hstep
      · next outcome hrunner =>
          obtain rfl := Option.some.inj hstep
          have hset : JoinOk (s.setRunner i (.completed outcome)) :=
            setRunner_joinOk hs (by rw [hrunner]; rfl)
              (fun _ => hs.stop i (by rw [hrunner]; rfl))
          refine hset.move rfl rfl rfl rfl ?_
          cases s.ex <;> simp [ParentPc.owes]
      · simp at hstep
  | _ => simp [race] at hstep

/-! ### Whole runs -/

theorem step_joinOk {s t : State Value Exc} {a : Action Value Exc}
    (hs : JoinOk s) (hstep : step s a = some t) : JoinOk t := by
  cases a with
  | parent => exact proceed_joinOk hs hstep
  | runnerReturns i => exact leave_joinOk (a := .runnerReturns i) hs hstep
  | joinComplete i => exact leave_joinOk (a := .joinComplete i) hs hstep
  | _ =>
      simp only [step] at hstep
      exact race_joinOk hs hstep

/-- Under `toRace` a step is an allowed step of `when_any` or none. -/
theorem step_toRace {s t : State Value Exc} {a : Action Value Exc}
    (hs : JoinOk s) (hlooks : looksAfterStore s a = true)
    (hstep : step s a = some t) :
    t.toRace = s.toRace ∨ ∃ b, WhenAny.looksAfterStore s.toRace b = true ∧
      WhenAny.step s.toRace b = some t.toRace := by
  have hrace : race s a = some t → t.toRace = s.toRace ∨
      ∃ b, WhenAny.looksAfterStore s.toRace b = true ∧
        WhenAny.step s.toRace b = some t.toRace := by
    intro hstep
    refine (race_toRace hs.remaining hstep).imp And.right ?_
    rintro ⟨b, hb, hstep⟩
    have hparent := Action.toRace_ne_parent hb
    refine ⟨b, ?_, ?_⟩ <;> cases b <;>
      simp_all [WhenAny.looksAfterStore, WhenAny.step]
  cases a with
  | parent =>
      refine (proceed_toRace hlooks hstep).imp id ?_
      rintro ⟨hlooks', hstep'⟩
      exact ⟨.parent, hlooks', hstep'⟩
  | runnerReturns i =>
      exact Or.inl (leave_toRace (a := .runnerReturns i) hstep)
  | joinComplete i =>
      exact Or.inl (leave_toRace (a := .joinComplete i) hstep)
  | _ =>
      simp only [step] at hstep
      exact hrace hstep

theorem reachableUnder_joinOk {s : State Value Exc}
    {allowed : State Value Exc → Action Value Exc → Prop}
    (hs : (system Value Exc).ReachableUnder allowed s) : JoinOk s :=
  hs.invariant start_joinOk (fun _ _ _ hinv _ hstep => step_joinOk hinv hstep)

/-- The runs of `when_any_cancel_join` are runs of `when_any`. -/
theorem reachableUnder_toRace {s : State Value Exc}
    (hs : (system Value Exc).ReachableUnder
      (fun s a => looksAfterStore s a = true) s) :
    (WhenAny.system (WhenAny.container 1 (Variant Value)) Exc).ReachableUnder
      (fun s a => WhenAny.looksAfterStore s a = true) s.toRace :=
  hs.refine _ _ State.toRace rfl (fun _ _ _ hs hlooks hstep =>
    step_toRace (reachableUnder_joinOk hs) hlooks hstep)

theorem other_mem_joins {reading : Reading Value Exc} {i : Fin 2}
    {outcome : Except Exc (Variant Value)}
    (hresult : reading.result = .ofOutcome i outcome) :
    other i ∈ reading.joins := by
  cases reading with
  | threw e =>
      simp only [Reading.joins, other]
      split <;> simp
  | value index result =>
      cases result with
      | none =>
          cases outcome <;>
            simp [Reading.result, WhenAny.Result.ofOutcome] at hresult
      | some v =>
          cases outcome with
          | ok v' =>
              simp only [Reading.result, WhenAny.Result.ofOutcome,
                WhenAny.Result.value.injEq] at hresult
              obtain ⟨rfl, _⟩ := hresult
              simp only [Reading.joins, other]
              split <;> simp
          | error e =>
              simp [Reading.result, WhenAny.Result.ofOutcome] at hresult

/-- What the call has returned or thrown. -/
def State.returnedResult (s : State Value Exc) :
    Option (WhenAny.Result (fun _ : Fin 2 => Variant Value) Exc) :=
  match s.parent with
  | .returned reading => some reading.result
  | _ => none

/-- The timer (index 1) wins; its runner stops the operation (index 0), which
ends with an exception of its own, and the parent joins it before it returns. -/
def timerWins : List (Action (fun _ : Fin 2 => Nat) Unit) :=
  [.parent, .parent, .finish 1 (.ok 7), .parent, .tryComplete 1, .parent,
    .requestCancelOther 1, .store 1, .complete 1, .resume 1, .parent, .parent,
    .parent, .finish 0 (.error ()), .tryComplete 0, .runnerReturns 0,
    .joinComplete 0, .parent]

/-- The pair `(1, 7)` has been returned. -/
def returnedSeven (s : State (fun _ : Fin 2 => Nat) Unit) : Bool :=
  match s.returnedResult with
  | some (.value i v) => i == 1 && v.2 == 7
  | _ => false

end CancelJoin

end Iocoro
