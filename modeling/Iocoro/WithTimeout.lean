/-
`with_timeout`: the operation and the wait of a timer race under `when_any_cancel_join`.
The call returns what the operation has given, or that the time is over, and then it is
over; in both cases neither of the two is still running.
-/
import Mathlib
import Iocoro.CancelJoin
import Iocoro.RelativeTimeout

universe u v

namespace Iocoro

namespace CancelJoin

variable {Value : Fin 2 → Type u} {Exc : Type v} {s t : State Value Exc}
  {a : Action Value Exc}

/-- What the task of a runner has ended with. -/
def Runner.given {T : Type u} : Runner Exc T → Option (Except Exc T)
  | .running | .thrown => none
  | .finished outcome | .lost outcome | .won outcome | .cancelled outcome
  | .stored outcome | .resuming outcome | .completed outcome => some outcome

theorem Runner.given_of_outcome {T : Type u} {runner : Runner Exc T}
    {outcome : Except Exc T} (houtcome : runner.outcome = some outcome) :
    runner.given = some outcome := by
  cases runner with
  | stored | resuming | completed => exact houtcome
  | running | finished | lost | won | cancelled | thrown => cases houtcome

theorem Runner.winner_of_hasCancelled {T : Type u} {runner : Runner Exc T}
    (hcancelled : runner.hasCancelled = true) : runner.winner = true := by
  cases runner with
  | cancelled | thrown | stored | resuming | completed => rfl
  | running | finished | lost | won => cases hcancelled

theorem other_other (i : Fin 2) : other (other i) = i := by
  fin_cases i <;> rfl

theorem other_ne (i : Fin 2) : other i ≠ i := by
  fin_cases i <;> decide

/-- The step of a runner: it keeps the outcome of its task, and it asks the other task to
stop once it has won. -/
structure RunnerMove (s t : State Value Exc) (a : Action Value Exc) (i : Fin 2)
    (new : Runner Exc (Value i)) : Prop where
  runner : t.runner = Function.update s.runner i new
  given : ∀ outcome, new.given = some outcome →
    (s.runner i).given = some outcome ∨ a = .finish i outcome
  hasCancelled : (s.runner i).hasCancelled = true → new.hasCancelled = true
  stop : t.stopRequested = s.stopRequested ∨ new.hasCancelled = true ∧
    t.stopRequested = Function.update s.stopRequested (other i) true

theorem race_move (hstep : race s a = some t) : ∃ i new, RunnerMove s t a i new := by
  cases a with
  | finish i outcome =>
      simp only [race] at hstep
      split at hstep
      · next hrunner =>
          obtain rfl := Option.some.inj hstep
          refine ⟨i, .finished outcome, rfl, fun o ho => .inr ?_, fun hc => ?_, .inl rfl⟩
          · rw [Option.some.inj ho]
          · rw [hrunner] at hc
            cases hc
      · cases hstep
  | tryComplete i =>
      simp only [race] at hstep
      split at hstep
      · next outcome hrunner =>
          obtain rfl := Option.some.inj hstep
          refine ⟨i, _, rfl, fun o ho => .inl ?_, fun hc => ?_, .inl rfl⟩
          · rw [hrunner, ← ho]
            split
            · rfl
            · rfl
          · rw [hrunner] at hc
            cases hc
      · cases hstep
  | requestCancelOther i =>
      simp only [race] at hstep
      split at hstep
      · next outcome hrunner =>
          obtain rfl := Option.some.inj hstep
          refine ⟨i, .cancelled outcome, rfl, fun o ho => .inl ?_, fun _ => rfl,
            .inr ⟨rfl, rfl⟩⟩
          rw [hrunner]
          exact ho
      · cases hstep
  | store i =>
      simp only [race] at hstep
      split at hstep
      · next outcome hrunner =>
          obtain rfl := Option.some.inj hstep
          have hfields : (s.store i outcome).runner = s.runner ∧
              (s.store i outcome).stopRequested = s.stopRequested := by
            cases outcome with
            | ok => exact ⟨rfl, rfl⟩
            | error => exact ⟨rfl, rfl⟩
          refine ⟨i, .stored outcome, ?_, fun o ho => .inl ?_, fun _ => rfl,
            .inl hfields.2⟩
          · exact congrArg (Function.update · i _) hfields.1
          · rw [hrunner]
            exact ho
      · cases hstep
  | storeThrows i =>
      simp only [race] at hstep
      split at hstep
      · next hrunner =>
          obtain rfl := Option.some.inj hstep
          refine ⟨i, .thrown, rfl, fun o ho => ?_, fun _ => rfl, .inl rfl⟩
          cases ho
      · cases hstep
  | complete i =>
      simp only [race] at hstep
      split at hstep
      · next outcome hrunner =>
          obtain rfl := Option.some.inj hstep
          refine ⟨i, _, rfl, fun o ho => .inl ?_, fun _ => ?_, .inl rfl⟩
          · rw [hrunner, ← ho]
            split
            · rfl
            · rfl
          · split
            · rfl
            · rfl
      · cases hstep
  | resume i =>
      simp only [race] at hstep
      split at hstep
      · next outcome hrunner =>
          obtain rfl := Option.some.inj hstep
          refine ⟨i, .completed outcome, rfl, fun o ho => .inl ?_, fun _ => rfl, .inl rfl⟩
          rw [hrunner]
          exact ho
      · cases hstep
  | runnerReturns i => cases hstep
  | joinComplete i => cases hstep
  | parent => cases hstep

theorem leave_runner (hstep : leave s a = some t) :
    t.runner = s.runner ∧ t.stopRequested = s.stopRequested := by
  cases a with
  | runnerReturns i =>
      simp only [leave] at hstep
      split at hstep
      · obtain rfl := Option.some.inj hstep
        exact ⟨rfl, rfl⟩
      · cases hstep
  | joinComplete i =>
      simp only [leave] at hstep
      split at hstep
      · obtain rfl := Option.some.inj hstep
        exact ⟨rfl, rfl⟩
      · cases hstep
  | finish | tryComplete | requestCancelOther | store | storeThrows | complete | resume
  | parent => cases hstep

theorem joinStep_runner {i : Fin 2} {rest : List (Fin 2)} {reading : Reading Value Exc}
    {stage : JoinStage} (hstep : joinStep s i rest reading stage = some t) :
    t.runner = s.runner ∧ t.stopRequested = s.stopRequested := by
  cases stage with
  | ready =>
      simp only [joinStep] at hstep
      split at hstep
      · obtain rfl := Option.some.inj hstep
        exact ⟨rfl, rfl⟩
      · obtain rfl := Option.some.inj hstep
        exact ⟨rfl, rfl⟩
  | suspend =>
      simp only [joinStep] at hstep
      split at hstep
      · obtain rfl := Option.some.inj hstep
        exact ⟨rfl, rfl⟩
      · obtain rfl := Option.some.inj hstep
        exact ⟨rfl, rfl⟩
  | suspended =>
      simp only [joinStep] at hstep
      split at hstep
      · obtain rfl := Option.some.inj hstep
        exact ⟨rfl, rfl⟩
      · cases hstep

theorem proceed_runner (hstep : proceed s = some t) :
    t.runner = s.runner ∧ t.stopRequested = s.stopRequested := by
  unfold proceed at hstep
  split at hstep
  · obtain rfl := Option.some.inj hstep
    exact ⟨rfl, rfl⟩
  · obtain rfl := Option.some.inj hstep
    exact ⟨rfl, rfl⟩
  · obtain rfl := Option.some.inj hstep
    exact ⟨rfl, rfl⟩
  · split at hstep
    · obtain rfl := Option.some.inj hstep
      exact ⟨rfl, rfl⟩
    · obtain rfl := Option.some.inj hstep
      exact ⟨rfl, rfl⟩
    · obtain rfl := Option.some.inj hstep
      exact ⟨rfl, rfl⟩
  · obtain rfl := Option.some.inj hstep
    exact ⟨rfl, rfl⟩
  · exact joinStep_runner hstep
  · cases hstep

theorem step_runner (hstep : step s a = some t) :
    (t.runner = s.runner ∧ t.stopRequested = s.stopRequested) ∨
      ∃ i new, RunnerMove s t a i new := by
  cases a with
  | parent => exact .inl (proceed_runner hstep)
  | runnerReturns i => exact .inl (leave_runner (a := .runnerReturns i) hstep)
  | joinComplete i => exact .inl (leave_runner (a := .joinComplete i) hstep)
  | finish i outcome => exact .inr (race_move (a := .finish i outcome) hstep)
  | tryComplete i => exact .inr (race_move (a := .tryComplete i) hstep)
  | requestCancelOther i => exact .inr (race_move (a := .requestCancelOther i) hstep)
  | store i => exact .inr (race_move (a := .store i) hstep)
  | storeThrows i => exact .inr (race_move (a := .storeThrows i) hstep)
  | complete i => exact .inr (race_move (a := .complete i) hstep)
  | resume i => exact .inr (race_move (a := .resume i) hstep)

/-- An outcome was there before the step, or the task has just ended with it. -/
theorem step_given (hstep : step s a = some t) {i : Fin 2} {outcome : Except Exc (Value i)}
    (hgiven : (t.runner i).given = some outcome) :
    (s.runner i).given = some outcome ∨ a = .finish i outcome := by
  rcases step_runner hstep with ⟨hrunner, -⟩ | ⟨j, new, hmove⟩
  · rw [hrunner] at hgiven
    exact .inl hgiven
  · rw [hmove.runner] at hgiven
    by_cases hi : i = j
    · subst hi
      rw [Function.update_self] at hgiven
      exact hmove.given outcome hgiven
    · rw [Function.update_of_ne hi] at hgiven
      exact .inl hgiven

theorem step_stopRequested (hstep : step s a = some t) {i : Fin 2}
    (hstop : s.stopRequested i = true) : t.stopRequested i = true := by
  rcases step_runner hstep with ⟨-, hsame⟩ | ⟨j, new, hmove⟩
  · rw [hsame]
    exact hstop
  · rcases hmove.stop with hsame | ⟨-, hstopped⟩
    · rw [hsame]
      exact hstop
    · rw [hstopped]
      by_cases hi : i = other j
      · subst hi
        exact Function.update_self ..
      · rw [Function.update_of_ne hi]
        exact hstop

/-- Only the winner asks for a stop. -/
def StopOk (s : State Value Exc) : Prop :=
  ∀ i, s.stopRequested i = true → (s.runner (other i)).hasCancelled = true

theorem step_stopOk (hs : StopOk s) (hstep : step s a = some t) : StopOk t := by
  intro i hstop
  rcases step_runner hstep with ⟨hrunner, hsame⟩ | ⟨j, new, hmove⟩
  · rw [hsame] at hstop
    rw [hrunner]
    exact hs i hstop
  · have hkept : s.stopRequested i = true → (t.runner (other i)).hasCancelled = true := by
      intro hbefore
      have hcancelled := hs i hbefore
      rw [hmove.runner]
      by_cases hi : other i = j
      · subst hi
        rw [Function.update_self]
        exact hmove.hasCancelled hcancelled
      · rw [Function.update_of_ne hi]
        exact hcancelled
    rcases hmove.stop with hsame | ⟨hcancelled, hstopped⟩
    · exact hkept (hsame ▸ hstop)
    · by_cases hi : i = other j
      · subst hi
        rw [hmove.runner, other_other, Function.update_self]
        exact hcancelled
      · rw [hstopped, Function.update_of_ne hi] at hstop
        exact hkept hstop

/-- What is known when `when_any_cancel_join` returns: the winner's outcome, and that both
tasks have ended. -/
structure Returned (s : State Value Exc) (reading : Reading Value Exc) (i : Fin 2)
    (outcome : Except Exc (Value i)) : Prop where
  result : reading.result = .ofOutcome i (outcome.map (Sigma.mk i))
  outcome : (s.runner i).given = some outcome
  stop : s.stopRequested (other i) = true
  unstopped : s.stopRequested i = false
  ended : (s.runner (other i)).ended = true

theorem returned_of_reachable
    (hs : (system Value Exc).ReachableUnder (fun s a => looksAfterStore s a = true) s)
    (hstop : StopOk s) {reading : Reading Value Exc} (hpc : s.parent = .returned reading) :
    ∃ i outcome, Returned s reading i outcome := by
  have hjoin : JoinOk s := reachableUnder_joinOk hs
  have hrace : WhenAny.Inv s.toRace :=
    (reachableUnder_toRace hs).invariant WhenAny.start_inv
      fun _ _ _ hinv hlooks hrun => WhenAny.step_inv hinv hlooks hrun
  have hparent : s.toRace.parent = .returned reading.result := by
    change s.parent.toRace = _
    rw [hpc]
    rfl
  obtain ⟨i, raced, ⟨hraced, hunique⟩, hresult⟩ := hrace.correct.returned _ hparent
  have hstored : ((s.runner i).outcome).map (Except.map (Sigma.mk i)) = some raced :=
    (Runner.toRace_outcome _ _).symm.trans hraced
  obtain ⟨outcome, houtcome, rfl⟩ := Option.map_eq_some_iff.mp hstored
  have hjoined : (s.spawned (other i)).done = true := by
    have howes := hjoin.owes reading [] (by rw [hpc]; rfl) (other i)
      (other_mem_joins hresult)
    simpa using howes
  have hcancelled : (s.runner i).hasCancelled = true := by
    cases hrunner : s.runner i with
    | stored | resuming | completed => rfl
    | running | finished | lost | won | cancelled | thrown =>
        rw [hrunner] at houtcome
        cases houtcome
  refine ⟨i, outcome, hresult, Runner.given_of_outcome houtcome, hjoin.stop i hcancelled,
    Bool.eq_false_iff.mpr fun hstopped => ?_, hjoin.ended _ (hjoin.finished _ hjoined)⟩
  -- The other runner would have won as well.
  have hwinner := Runner.winner_of_hasCancelled (hstop i hstopped)
  refine other_ne i (hunique (other i) ?_)
  rw [← hwinner]
  exact Runner.toRace_winner _ _

end CancelJoin

namespace WithTimeout

open CancelJoin (Variant looksAfterStore StopOk Returned)

inductive Error (Ec : Type u) where
  | operationAborted
  | timedOut
  | system (ec : Ec)
deriving DecidableEq, Repr

def Error.isAborted {Ec : Type u} : Error Ec → Bool
  | .operationAborted => true
  | _ => false

/-- What the two awaitables give: `result<T>` and `result<void>`. -/
abbrev Value (T Ec : Type u) : Fin 2 → Type u
  | 0 => Except (Error Ec) T
  | 1 => Except (Error Ec) PUnit

abbrev Race (T Ec : Type u) (Exc : Type v) := CancelJoin.State (Value T Ec) Exc

/-- `failed` is a check that fails, or `std::get` of the other alternative. -/
inductive Result (T Ec : Type u) (Exc : Type v) where
  | value (result : Except (Error Ec) T)
  | threw (e : Exc)
  | failed

inductive Pc (T Ec : Type u) (Exc : Type v) where
  | called
  | racing (race : Race T Ec Exc)
  | returned (result : Result T Ec Exc) (race : Option (Race T Ec Exc))

/-- `start` is the clock when the timer was armed. -/
structure State (T Ec : Type u) (Exc : Type v) where
  clock : Int := 0
  start : Int := 0
  expiry : Int := 0
  parentStop : Bool := false
  timerCancelled : Bool := false
  pc : Pc T Ec Exc := .called

inductive Action (T Ec : Type u) (Exc : Type v) where
  | tick (d : Nat)
  | requestStop
  | enter
  | race (a : CancelJoin.Action (Value T Ec) Exc)
  | resume

variable {T Ec : Type u} {Exc : Type v}

/-- The result of the timer's wait, where that is what a runner has finished with. -/
def timerResult : (i : Fin 2) → Except Exc (Value T Ec i) → Option (Except (Error Ec) PUnit)
  | 1, .ok result => some result
  | _, _ => none

/-- The wait of a timer succeeds when its time has come, and is aborted where its own task
or the parent was asked to stop. -/
def State.mayFinish (s : State T Ec Exc) (race : Race T Ec Exc) :
    CancelJoin.Action (Value T Ec) Exc → Bool
  | .finish i outcome =>
      match timerResult i outcome with
      | some (.ok _) => decide (s.expiry ≤ s.clock)
      | some (.error .operationAborted) => race.stopRequested 1 || s.parentStop
      | _ => true
  | _ => true

/-- What the call makes of the result of the race. -/
def finish (parentStop : Bool) :
    WhenAny.Result (fun _ : Fin 2 => Variant (Value T Ec)) Exc → Result T Ec Exc
  | .threw e => .threw e
  | .missing => .failed
  | .value index v =>
      if index = 0 then
        match v with
        | ⟨0, result⟩ => .value result
        | ⟨1, _⟩ => .failed
      else
        match v with
        | ⟨0, _⟩ => .failed
        | ⟨1, .error ec⟩ =>
            if (ec.isAborted && parentStop) = true then .value (.error .operationAborted)
            else .value (.error ec)
        | ⟨1, .ok _⟩ => .value (.error .timedOut)

/-- The operation's `index` makes the call cancel the timer. -/
def cancels : WhenAny.Result (fun _ : Fin 2 => Variant (Value T Ec)) Exc → Bool
  | .value index _ => index == 0
  | _ => false

def step (unit : Nat) (timeout : Int) (s : State T Ec Exc) :
    Action T Ec Exc → Option (State T Ec Exc)
  | .tick d => some { s with clock := s.clock + d }
  | .requestStop => some { s with parentStop := true }
  | .enter =>
      match s.pc with
      | .called =>
          if s.parentStop = true then
            some { s with pc := .returned (.value (.error .operationAborted)) none }
          else some { s with
            start := s.clock
            expiry := RelativeTimeout.withTimeout unit s.clock timeout
            pc := .racing {} }
      | _ => none
  | .race a =>
      match s.pc with
      | .racing race =>
          if s.mayFinish race a = true then
            (CancelJoin.step race a).map fun race => { s with pc := .racing race }
          else none
      | _ => none
  | .resume =>
      match s.pc with
      | .racing race =>
          match race.parent with
          | .returned reading => some { s with
              timerCancelled := cancels reading.result
              pc := .returned (finish s.parentStop reading.result) (some race) }
          | _ => none
      | _ => none

def system (T Ec : Type u) (Exc : Type v) (unit : Nat) (timeout : Int) :
    TransitionSystem (State T Ec Exc) (Action T Ec Exc) where
  start := {}
  step := step unit timeout

/-- The parent of the race does not look between the winner's `try_complete` and its
store. -/
def State.looksAfterStore (s : State T Ec Exc) : Action T Ec Exc → Bool
  | .race a =>
      match s.pc with
      | .racing race => CancelJoin.looksAfterStore race a
      | _ => true
  | _ => true

/-- What is kept while the two race. -/
structure Timed (unit : Nat) (timeout : Int) (s : State T Ec Exc) (race : Race T Ec Exc) :
    Prop where
  reached : (CancelJoin.system (Value T Ec) Exc).ReachableUnder
    (fun s a => CancelJoin.looksAfterStore s a = true) race
  stop : StopOk race
  expiry : s.expiry = RelativeTimeout.withTimeout unit s.start timeout
  fired : ∀ u, (race.runner 1).given = some (.ok (.ok u)) → s.expiry ≤ s.clock
  aborted : (race.runner 1).given = some (.ok (.error .operationAborted)) →
    race.stopRequested 1 = true ∨ s.parentStop = true

/-- The answer of a call that was not refused comes from one of the two, with the other
one ended too; the time is over when it says so. -/
inductive Answered (unit : Nat) (timeout : Int) (s : State T Ec Exc) :
    Result T Ec Exc → Option (Race T Ec Exc) → Prop
  | refused (hstop : s.parentStop = true) :
      Answered unit timeout s (.value (.error .operationAborted)) none
  | operation {race : Race T Ec Exc} {result : Except (Error Ec) T}
      (hgiven : (race.runner 0).given = some (.ok result))
      (hended : (race.runner 1).ended = true) (hstop : race.stopRequested 1 = true)
      (hcancelled : s.timerCancelled = true) :
      Answered unit timeout s (.value result) (some race)
  | timedOut {race : Race T Ec Exc} {u : PUnit}
      (hgiven : (race.runner 1).given = some (.ok (.ok u)))
      (hended : (race.runner 0).ended = true) (hstop : race.stopRequested 0 = true)
      (hdue : s.expiry ≤ s.clock)
      (hlapsed : RelativeTimeout.FitsInt64 (s.start + unit * timeout) →
        s.start + unit * timeout ≤ s.clock) :
      Answered unit timeout s (.value (.error .timedOut)) (some race)
  | timerFailed {race : Race T Ec Exc} {ec : Error Ec}
      (hgiven : (race.runner 1).given = some (.ok (.error ec)))
      (hended : (race.runner 0).ended = true) (hstop : race.stopRequested 0 = true)
      (haborted : ec = .operationAborted → s.parentStop = true) :
      Answered unit timeout s (.value (.error ec)) (some race)
  | threw {race : Race T Ec Exc} {e : Exc} (i : Fin 2)
      (hgiven : (race.runner i).given = some (.error e))
      (hended : (race.runner (CancelJoin.other i)).ended = true)
      (hstop : race.stopRequested (CancelJoin.other i) = true) :
      Answered unit timeout s (.threw e) (some race)

def Sound (unit : Nat) (timeout : Int) (s : State T Ec Exc) : Pc T Ec Exc → Prop
  | .called => True
  | .racing race => Timed unit timeout s race
  | .returned result race => Answered unit timeout s result race

variable {unit : Nat} {timeout : Int} {s t : State T Ec Exc} {race : Race T Ec Exc}

theorem Timed.lapsed (hs : Timed unit timeout s race) (hdue : s.expiry ≤ s.clock)
    (hfits : RelativeTimeout.FitsInt64 (s.start + unit * timeout)) :
    s.start + unit * timeout ≤ s.clock := by
  have hexpiry : s.expiry = s.start + unit * timeout := by
    rw [hs.expiry, ← RelativeTimeout.toInt_of_fits hfits]
    exact RelativeTimeout.timePointAdd_toNanoseconds unit s.start timeout
  exact hexpiry ▸ hdue

/-- Both ways to return the error of the timer give that error. -/
theorem finish_error (parentStop : Bool) (ec : Error Ec) :
    (finish parentStop (.value 1 ⟨1, .error ec⟩) : Result T Ec Exc) =
      .value (.error ec) := by
  cases ec with
  | operationAborted =>
      cases parentStop with
      | true => rfl
      | false => rfl
  | timedOut => rfl
  | system ec => rfl

/-- The call returns the outcome of the winner. -/
theorem Timed.answered (hs : Timed unit timeout s race) {reading : CancelJoin.Reading _ _}
    (hpc : race.parent = .returned reading) :
    Answered unit timeout { s with
        timerCancelled := cancels reading.result
        pc := .returned (finish s.parentStop reading.result) (some race) }
      (finish s.parentStop reading.result) (some race) := by
  obtain ⟨i, outcome, hresult, hgiven, hstop, hunstopped, hended⟩ :=
    CancelJoin.returned_of_reachable hs.reached hs.stop hpc
  rw [hresult]
  cases outcome with
  | error e => exact .threw i hgiven hended hstop
  | ok result =>
      fin_cases i
      · exact .operation hgiven hended hstop rfl
      · cases result with
        | ok u =>
            have hdue := hs.fired u hgiven
            exact .timedOut hgiven hended hstop hdue (hs.lapsed hdue)
        | error ec =>
            have haborted : ec = .operationAborted → s.parentStop = true := by
              rintro rfl
              exact (hs.aborted hgiven).resolve_left (Bool.eq_false_iff.mp hunstopped)
            change Answered unit timeout _ (finish s.parentStop (.value 1 ⟨1, .error ec⟩)) _
            rw [finish_error]
            exact .timerFailed hgiven hended hstop haborted

theorem Answered.later {result : Result T Ec Exc} {ended : Option (Race T Ec Exc)}
    (hs : Answered unit timeout s result ended) (hclock : s.clock ≤ t.clock)
    (hstart : t.start = s.start) (hexpiry : t.expiry = s.expiry)
    (hparent : s.parentStop = true → t.parentStop = true)
    (hcancelled : t.timerCancelled = s.timerCancelled) :
    Answered unit timeout t result ended := by
  cases hs with
  | refused hstop => exact .refused (hparent hstop)
  | operation hgiven hended hstop htimer =>
      exact .operation hgiven hended hstop (hcancelled.trans htimer)
  | timedOut hgiven hended hstop hdue hlapsed =>
      refine .timedOut hgiven hended hstop (hexpiry ▸ le_trans hdue hclock) ?_
      rw [hstart]
      exact fun hfits => le_trans (hlapsed hfits) hclock
  | timerFailed hgiven hended hstop haborted =>
      exact .timerFailed hgiven hended hstop fun hec => hparent (haborted hec)
  | threw i hgiven hended hstop => exact .threw i hgiven hended hstop

theorem Sound.later (hs : Sound unit timeout s s.pc) (hpc : t.pc = s.pc)
    (hclock : s.clock ≤ t.clock) (hstart : t.start = s.start) (hexpiry : t.expiry = s.expiry)
    (hparent : s.parentStop = true → t.parentStop = true)
    (hcancelled : t.timerCancelled = s.timerCancelled) : Sound unit timeout t t.pc := by
  rw [hpc]
  cases hs' : s.pc with
  | called => exact trivial
  | racing race =>
      rw [hs'] at hs
      refine ⟨hs.reached, hs.stop, ?_, fun u hgiven => ?_, fun hgiven => ?_⟩
      · rw [hexpiry, hstart]
        exact hs.expiry
      · rw [hexpiry]
        exact le_trans (hs.fired u hgiven) hclock
      · exact (hs.aborted hgiven).imp id hparent
  | returned result ended =>
      rw [hs'] at hs
      exact Answered.later hs hclock hstart hexpiry hparent hcancelled

/-- The timer's wait ends as a timer may. -/
theorem Timed.step (hs : Timed unit timeout s race)
    {a : CancelJoin.Action (Value T Ec) Exc} {race' : Race T Ec Exc}
    (hlooks : CancelJoin.looksAfterStore race a = true) (hmay : s.mayFinish race a = true)
    (hstep : CancelJoin.step race a = some race') : Timed unit timeout s race' := by
  refine ⟨hs.reached.step hlooks hstep, CancelJoin.step_stopOk hs.stop hstep, hs.expiry,
    fun u hgiven => ?_, fun hgiven => ?_⟩
  · rcases CancelJoin.step_given hstep hgiven with hbefore | rfl
    · exact hs.fired u hbefore
    · exact of_decide_eq_true hmay
  · rcases CancelJoin.step_given hstep hgiven with hbefore | rfl
    · exact (hs.aborted hbefore).imp (CancelJoin.step_stopRequested hstep) id
    · exact ((Bool.or_eq_true _ _).mp hmay).imp (CancelJoin.step_stopRequested hstep) id

theorem step_sound {a : Action T Ec Exc} (hs : Sound unit timeout s s.pc)
    (hlooks : s.looksAfterStore a = true) (hstep : step unit timeout s a = some t) :
    Sound unit timeout t t.pc := by
  cases a with
  | tick d =>
      obtain rfl := Option.some.inj hstep
      exact hs.later rfl (by simp) rfl rfl id rfl
  | requestStop =>
      obtain rfl := Option.some.inj hstep
      exact hs.later rfl (le_refl _) rfl rfl (fun _ => rfl) rfl
  | enter =>
      simp only [WithTimeout.step] at hstep
      split at hstep
      · split at hstep
        · next hstop =>
            obtain rfl := Option.some.inj hstep
            exact .refused hstop
        · obtain rfl := Option.some.inj hstep
          refine ⟨.start, fun i hstopped => ?_, rfl, fun u hgiven => ?_, fun hgiven => ?_⟩
          · cases hstopped
          · cases hgiven
          · cases hgiven
      · cases hstep
  | race a =>
      cases hpc : s.pc with
      | called =>
          simp only [WithTimeout.step, hpc] at hstep
          cases hstep
      | racing race =>
          simp only [WithTimeout.step, hpc] at hstep
          rw [hpc] at hs
          split at hstep
          · next hmay =>
              obtain ⟨race', hrace, rfl⟩ := Option.map_eq_some_iff.mp hstep
              have hlooked : CancelJoin.looksAfterStore race a = true := by
                simpa only [State.looksAfterStore, hpc] using hlooks
              have htimed := Timed.step hs hlooked hmay hrace
              exact ⟨htimed.reached, htimed.stop, htimed.expiry, htimed.fired,
                htimed.aborted⟩
          · cases hstep
      | returned result ended =>
          simp only [WithTimeout.step, hpc] at hstep
          cases hstep
  | resume =>
      cases hpc : s.pc with
      | called =>
          simp only [WithTimeout.step, hpc] at hstep
          cases hstep
      | racing race =>
          simp only [WithTimeout.step, hpc] at hstep
          rw [hpc] at hs
          split at hstep
          · next reading hreturned =>
              obtain rfl := Option.some.inj hstep
              exact Timed.answered hs hreturned
          · cases hstep
      | returned result ended =>
          simp only [WithTimeout.step, hpc] at hstep
          cases hstep

end WithTimeout

end Iocoro
