/-
What a `when_any` or `when_any_cancel_join` needs of its winner: that it stores an
outcome and calls `complete`.  The handler of a runner guards itself by `try_complete`,
so a winner whose `set_value` throws does neither; nothing else can prevent it.  A throw
while the parameter of `set_value` is made counts as one of `set_value`: it leaves the
index unwritten too, but without a value the index decides nothing.
-/
import Iocoro.CancelJoin

universe u v

namespace Iocoro

namespace WhenAny

variable {n : Nat} {Value : Fin (n + 1) → Type u} {o : Overload Value} {Exc : Type v}

/-- Nothing is left to do but to return. -/
def Runner.ended {T : Type u} : Runner Exc T → Bool
  | .lost _ | .thrown | .completed _ => true
  | _ => false

/-- It has called `complete`. -/
def Runner.announced {T : Type u} : Runner Exc T → Bool
  | .resuming _ | .completed _ => true
  | _ => false

/-- The action is a call of `complete`. -/
def Action.completes : Action Value Exc → Bool
  | .complete _ => true
  | _ => false

/-- The action is a `set_value` that throws. -/
def Action.throws : Action Value Exc → Bool
  | .storeThrows _ => true
  | _ => false

/-- Once the winner has run to its end `complete` has been called exactly once, and what
the parent finds is the winner's value or exception; once all have, the parent is not
suspended. -/
structure Completes (s : State o Exc) (calls : Nat) : Prop where
  winner : ∀ i, (s.runner i).winner = true → (s.runner i).ended = true →
    calls = 1 ∧ ∃ outcome, s.collect = .ofOutcome i outcome
  parent : (∀ i, (s.runner i).ended = true) → s.parent ≠ .suspended

/-- How the calls of `complete` go with the parent's wait. -/
structure MeetOk (s : State o Exc) (calls : Nat) : Prop where
  decided : s.done = true → ∃ i, (s.runner i).winner = true
  lost : ∀ i outcome, s.runner i = .lost outcome → s.done = true
  early : (∀ i, (s.runner i).announced = false) → s.waiter ≠ .sentinel ∧ calls = 0
  late : ∀ i, (s.runner i).announced = true → s.waiter = .sentinel ∧ calls = 1
  asleep : s.parent = .suspended →
    s.waiter = .parent ∨ ∃ i outcome, s.runner i = .resuming outcome

theorem start_meetOk : MeetOk (system o Exc).start 0 where
  decided := nofun
  lost := nofun
  early := fun _ => ⟨nofun, rfl⟩
  late := nofun
  asleep := nofun

theorem Runner.winner_of_announced {T : Type u} {runner : Runner Exc T}
    (hannounced : runner.announced = true) : runner.winner = true := by
  cases runner with
  | resuming | completed => rfl
  | running | finished | lost | won | thrown | stored => nomatch hannounced

/-- A winner that has not called `complete` is the only one who could have. -/
theorem RaceOk.not_announced {s : State o Exc} (hs : RaceOk s) {i : Fin (n + 1)}
    (hwinner : (s.runner i).winner = true) (hi : (s.runner i).announced = false)
    (j : Fin (n + 1)) : (s.runner j).announced = false := by
  by_contra hj
  rw [Bool.not_eq_false] at hj
  obtain rfl := hs.unique i j hwinner (Runner.winner_of_announced hj)
  rw [hi] at hj
  nomatch hj

theorem setRunner_same (s : State o Exc) (i : Fin (n + 1))
    (runner : Runner Exc (Value i)) : (s.setRunner i runner).runner i = runner :=
  Function.update_self ..

theorem setRunner_other (s : State o Exc) {i j : Fin (n + 1)} (hj : j ≠ i)
    (runner : Runner Exc (Value i)) :
    (s.setRunner i runner).runner j = s.runner j :=
  Function.update_of_ne hj ..

/-- A runner moves that has not called `complete` and does not do so now. -/
theorem MeetOk.setRunner {s t : State o Exc} {calls : Nat} (hs : MeetOk s calls)
    {i : Fin (n + 1)} {runner : Runner Exc (Value i)}
    (ht : t.runner = (s.setRunner i runner).runner)
    (hbefore : (s.runner i).announced = false) (hafter : runner.announced = false)
    (hdecided : t.done = true → ∃ j, (t.runner j).winner = true)
    (hlost : ∀ outcome, runner = .lost outcome → t.done = true)
    (hdone : s.done = true → t.done = true)
    (hwaiter : t.waiter = s.waiter) (hparent : t.parent = s.parent) :
    MeetOk t calls := by
  have hannounced : ∀ j, (t.runner j).announced = (s.runner j).announced := by
    intro j
    rw [ht]
    by_cases hj : j = i
    · subst hj
      rw [setRunner_same, hbefore, hafter]
    · rw [setRunner_other s hj]
  constructor
  case decided => exact hdecided
  case lost =>
    intro j outcome hj
    rw [ht] at hj
    by_cases heq : j = i
    · subst heq
      rw [setRunner_same] at hj
      exact hlost outcome hj
    · rw [setRunner_other s heq] at hj
      exact hdone (hs.lost j outcome hj)
  case early =>
    intro hnone
    rw [hwaiter]
    exact hs.early fun j => (hannounced j).symm.trans (hnone j)
  case late =>
    intro j hj
    rw [hwaiter]
    exact hs.late j ((hannounced j).symm.trans hj)
  case asleep =>
    rw [hparent, hwaiter]
    refine fun hsuspended => (hs.asleep hsuspended).imp id ?_
    rintro ⟨j, outcome, hj⟩
    have hne : j ≠ i := by
      rintro rfl
      rw [hj] at hbefore
      nomatch hbefore
    exact ⟨j, outcome, by rw [ht, setRunner_other s hne, hj]⟩

/-- The race stays decided when the winner moves on. -/
theorem decided_setRunner {s : State o Exc} {i : Fin (n + 1)}
    {runner : Runner Exc (Value i)} (hwinner : runner.winner = (s.runner i).winner)
    (hdecided : ∃ j, (s.runner j).winner = true) :
    ∃ j, ((s.setRunner i runner).runner j).winner = true := by
  obtain ⟨j, hj⟩ := hdecided
  exact ⟨j, (setRunner_winner hwinner j).trans hj⟩

theorem RaceStep.meetOk {s t : State o Exc} {calls : Nat} {a : Action Value Exc}
    (hstep : RaceStep s a t) (hrace : RaceOk s) (hs : MeetOk s calls) :
    MeetOk t (calls + a.completes.toNat) := by
  cases hstep with
  | finish outcome hrunner =>
      exact hs.setRunner rfl (by rw [hrunner]; rfl) rfl
        (fun hdone => decided_setRunner (by rw [hrunner]; rfl) (hs.decided hdone))
        nofun id rfl rfl
  | @tryComplete i outcome hrunner =>
      refine hs.setRunner rfl (by rw [hrunner]; rfl) (by split <;> rfl) (fun _ => ?_)
        (fun _ _ => rfl) (fun _ => rfl) rfl rfl
      cases hdone : s.done with
      | true => exact decided_setRunner (by rw [hrunner]; rfl) (hs.decided hdone)
      | false =>
          refine ⟨i, ?_⟩
          change ((s.setRunner i (.won outcome)).runner i).winner = true
          rw [setRunner_same]
          rfl
  | @store i outcome hrunner =>
      obtain ⟨hrunners, hdone, hwaiter, -, hparent⟩ := store_fields s i outcome
      have hset := setRunner_congr hrunners i (.stored outcome)
      refine hs.setRunner hset (by rw [hrunner]; rfl) rfl (fun htrue => ?_)
        (fun _ hlost => ?_) (fun htrue => hdone.trans htrue) hwaiter hparent
      · rw [hset]
        exact decided_setRunner (by rw [hrunner]; rfl)
          (hs.decided (hdone.symm.trans htrue))
      · cases hlost
  | @storeThrows i v hrunner =>
      exact hs.setRunner rfl (by rw [hrunner]; rfl) rfl
        (fun hdone => decided_setRunner (by rw [hrunner]; rfl) (hs.decided hdone))
        nofun id rfl rfl
  | @complete i outcome hrunner =>
      have hwinner : (s.runner i).winner = true := by
        rw [hrunner]
        rfl
      have hnone := hrace.not_announced hwinner (by rw [hrunner]; rfl)
      obtain ⟨hopen, rfl⟩ := hs.early hnone
      generalize hnew :
        (if s.waiter = .parent then Runner.resuming outcome
          else Runner.completed outcome : Runner Exc (Value i)) = runner
      have hannounced : runner.announced = true := by
        rw [← hnew]
        split <;> rfl
      have hwinner' : runner.winner = (s.runner i).winner :=
        (Runner.winner_of_announced hannounced).trans hwinner.symm
      constructor
      case decided => exact fun hdone => decided_setRunner hwinner' (hs.decided hdone)
      case lost =>
        intro j lost hj
        change (s.setRunner i runner).runner j = _ at hj
        by_cases heq : j = i
        · subst heq
          rw [setRunner_same] at hj
          rw [hj] at hannounced
          nomatch hannounced
        · rw [setRunner_other s heq] at hj
          exact hs.lost j lost hj
      case early =>
        intro hall
        have hi := hall i
        change ((s.setRunner i runner).runner i).announced = false at hi
        rw [setRunner_same, hannounced] at hi
        nomatch hi
      case late => exact fun _ _ => ⟨rfl, rfl⟩
      case asleep =>
        intro hsuspended
        obtain hwaiter | ⟨j, other, hj⟩ := hs.asleep hsuspended
        · refine .inr ⟨i, outcome, ?_⟩
          change (s.setRunner i runner).runner i = _
          rw [setRunner_same, ← hnew, if_pos hwaiter]
        · have hother := hnone j
          rw [hj] at hother
          nomatch hother
  | @resume i outcome hrunner =>
      have hlate := hs.late i (by rw [hrunner]; rfl)
      constructor
      case decided =>
        exact fun hdone => decided_setRunner (by rw [hrunner]; rfl) (hs.decided hdone)
      case lost =>
        intro j lost hj
        change (s.setRunner i (.completed outcome)).runner j = _ at hj
        by_cases heq : j = i
        · subst heq
          rw [setRunner_same] at hj
          nomatch hj
        · rw [setRunner_other s heq] at hj
          exact hs.lost j lost hj
      case early =>
        intro hall
        have hi := hall i
        change ((s.setRunner i (.completed outcome)).runner i).announced = false at hi
        rw [setRunner_same] at hi
        nomatch hi
      case late => exact fun _ _ => hlate
      case asleep =>
        intro hsuspended
        change (if s.ex then ParentPc.read else .terminated) = .suspended at hsuspended
        split at hsuspended <;> nomatch hsuspended

theorem proceed_meetOk {s t : State o Exc} {calls : Nat} (hs : MeetOk s calls)
    (hstep : proceed s = some t) : MeetOk t calls := by
  cases proceedStep_of_proceed hstep with
  | onward ex hawake =>
      exact { hs with asleep := fun hsuspended => absurd hsuspended hawake }
  | sleep hwaiter =>
      have hopen : ∀ i, (s.runner i).announced = true → False := fun i hi => by
        cases hwaiter.symm.trans (hs.late i hi).1
      exact { hs with
        early := fun hnone => ⟨nofun, (hs.early hnone).2⟩
        late := fun i hi => (hopen i hi).elim
        asleep := fun _ => .inl rfl }

theorem proceed_raceOk {s t : State o Exc} (hs : RaceOk s)
    (hstep : proceed s = some t) : RaceOk t := by
  cases proceedStep_of_proceed hstep with
  | onward ex hawake => exact hs.of_parent rfl rfl rfl rfl
  | sleep hwaiter => exact hs.of_parent rfl rfl rfl rfl

/-- `when_any` with a count of the calls of `complete`. -/
def countedSystem (o : Overload Value) (Exc : Type v) :
    TransitionSystem (State o Exc × Nat) (Action Value Exc) :=
  (system o Exc).counted Action.completes

/-- What holds in every run, whenever the parent looks. -/
structure RunOk (s : State o Exc × Nat) : Prop where
  race : RaceOk s.1
  meet : MeetOk s.1 s.2

theorem step_runOk {s t : State o Exc × Nat} {a : Action Value Exc}
    (hs : RunOk s) (hstep : (countedSystem o Exc).step s a = some t) : RunOk t := by
  obtain ⟨s, calls⟩ := s
  obtain ⟨t, total⟩ := t
  obtain ⟨hnext, rfl⟩ : step s a = some t ∧ total = calls + a.completes.toNat :=
    TransitionSystem.counted_step hstep
  have hrun : race s a = some t → RunOk (t, calls + a.completes.toNat) := fun hrace =>
    ⟨(raceStep_of_race hrace).raceOk hs.race,
      (raceStep_of_race hrace).meetOk hs.race hs.meet⟩
  cases a with
  | parent => exact ⟨proceed_raceOk hs.race hnext, proceed_meetOk hs.meet hnext⟩
  | finish | tryComplete | store | storeThrows | complete | resume => exact hrun hnext

theorem runOk_of_reachableUnder
    {allowed : State o Exc × Nat → Action Value Exc → Prop} {s : State o Exc × Nat}
    (hs : (countedSystem o Exc).ReachableUnder allowed s) : RunOk s := by
  have hstart : RunOk (countedSystem o Exc).start := ⟨start_inv.race, start_meetOk⟩
  exact hs.invariant hstart fun _ _ _ hinv _ hstep => step_runOk hinv hstep

theorem RunOk.completed {s : State o Exc} {calls : Nat} (hs : RunOk (s, calls))
    {i : Fin (n + 1)} {outcome : Except Exc (Value i)}
    (hi : s.runner i = .completed outcome) :
    calls = 1 ∧ s.collect = .ofOutcome i outcome :=
  ⟨(hs.meet.late i (by rw [hi]; rfl)).2, hs.race.collect i outcome (by rw [hi]; rfl)⟩

/-- A winner at its end has completed, or its store threw. -/
theorem Runner.winner_ended {T : Type u} {runner : Runner Exc T}
    (hwinner : runner.winner = true) (hended : runner.ended = true) :
    runner = .thrown ∨ ∃ outcome, runner = .completed outcome := by
  cases runner with
  | thrown => exact .inl rfl
  | completed outcome => exact .inr ⟨outcome, rfl⟩
  | running | finished | lost => nomatch hwinner
  | won | stored | resuming => nomatch hended

/-- What the winner has to do is done unless its store threw. -/
theorem RunOk.completes_iff {s : State o Exc} {calls : Nat} (hs : RunOk (s, calls)) :
    Completes s calls ↔ ∀ i, s.runner i ≠ .thrown := by
  constructor
  · intro hcompletes i hi
    have hone := (hcompletes.winner i (by rw [hi]; rfl) (by rw [hi]; rfl)).1
    have hnone := hs.race.not_announced (i := i) (by rw [hi]; rfl) (by rw [hi]; rfl)
    cases hone.symm.trans (hs.meet.early hnone).2
  · intro hreturns
    constructor
    case winner =>
      intro i hwinner hended
      obtain hthrown | ⟨outcome, hi⟩ := Runner.winner_ended hwinner hended
      · exact absurd hthrown (hreturns i)
      · exact ⟨(hs.completed hi).1, outcome, (hs.completed hi).2⟩
    case parent =>
      intro hall hsuspended
      -- some runner has won, as the first of them has come to its end
      have hdecided : ∃ i, (s.runner i).winner = true := by
        have hfirst := hall 0
        cases hrunner : s.runner 0 with
        | lost outcome => exact hs.meet.decided (hs.meet.lost 0 outcome hrunner)
        | thrown | completed => exact ⟨0, by rw [hrunner]; rfl⟩
        | running | finished | won | stored | resuming =>
            rw [hrunner] at hfirst
            nomatch hfirst
      obtain ⟨i, hwinner⟩ := hdecided
      obtain hthrown | ⟨outcome, hi⟩ := Runner.winner_ended hwinner (hall i)
      · exact hreturns i hthrown
      · have hsentinel := (hs.meet.late i (by rw [hi]; rfl)).1
        obtain hwaiting | ⟨j, other, hj⟩ := hs.meet.asleep hsuspended
        · cases hsentinel.symm.trans hwaiting
        · have hended := hall j
          rw [hj] at hended
          nomatch hended

/-- Where no store throws no runner loses its value. -/
theorem step_not_thrown {s t : State o Exc} {a : Action Value Exc}
    (hs : ∀ i, s.runner i ≠ .thrown) (hreturns : a.throws = false)
    (hstep : step s a = some t) : ∀ i, t.runner i ≠ .thrown := by
  have hset : ∀ {i : Fin (n + 1)} {runner : Runner Exc (Value i)}, runner ≠ .thrown →
      ∀ j, (s.setRunner i runner).runner j ≠ .thrown := by
    intro i runner hrunner j
    by_cases hj : j = i
    · subst hj
      rwa [setRunner_same]
    · rw [setRunner_other s hj]
      exact hs j
  have hrun : race s a = some t → ∀ i, t.runner i ≠ .thrown := by
    intro hrace
    cases raceStep_of_race hrace with
    | finish outcome hrunner => exact hset nofun
    | tryComplete hrunner => exact hset (by split <;> nofun)
    | @store i outcome hrunner =>
        rw [setRunner_congr (store_fields s i outcome).1]
        exact hset nofun
    | storeThrows hrunner => nomatch hreturns
    | complete hrunner => exact hset (by split <;> nofun)
    | resume hrunner => exact hset nofun
  cases a with
  | parent =>
      cases proceedStep_of_proceed hstep with
      | onward | sleep => exact hs
  | finish | tryComplete | store | storeThrows | complete | resume => exact hrun hstep

/-- No runner has lost its value. -/
def Kept (s : State o Exc × Nat) : Prop :=
  ∀ i, s.1.runner i ≠ .thrown

theorem kept_of_reachableUnder {s : State o Exc × Nat}
    (hs : (countedSystem o Exc).ReachableUnder (fun _ a => a.throws = false) s) :
    Kept s := by
  have hstart : Kept (countedSystem o Exc).start := nofun
  exact hs.invariant hstart fun _ _ _ hinv hreturns hstep =>
    step_not_thrown hinv hreturns (TransitionSystem.counted_step hstep).1

end WhenAny

namespace CancelJoin

variable {Value : Fin 2 → Type u} {Exc : Type v}

/-- The action is a call of `complete`. -/
def Action.completes : Action Value Exc → Bool
  | .complete _ => true
  | _ => false

/-- The action is a `set_value` that throws. -/
def Action.throws : Action Value Exc → Bool
  | .storeThrows _ => true
  | _ => false

/-- As for `when_any`; and once both runners have left their entry points, a join
that the parent sleeps in has resumed it. -/
structure Completes (s : State Value Exc) (calls : Nat) : Prop where
  winner : ∀ i, (s.runner i).winner = true → (s.runner i).ended = true →
    calls = 1 ∧ ∃ outcome, s.reading.result = .ofOutcome i outcome
  parent : (∀ i, (s.runner i).ended = true) → s.parent ≠ .suspended
  joins : (∀ i, (s.spawned i).done = true) → ∀ i rest reading,
    s.parent = .join .suspended i rest reading → (s.spawned i).resumed = true

/-- `when_any_cancel_join` with a count of the calls of `complete`. -/
def countedSystem (Value : Fin 2 → Type u) (Exc : Type v) :
    TransitionSystem (State Value Exc × Nat) (Action Value Exc) :=
  (system Value Exc).counted Action.completes

/-! ### The joins -/

/-- A join that the parent sleeps in has resumed it, or is going to. -/
def Awaited (s : State Value Exc) : Prop :=
  ∀ i rest reading, s.parent = .join .suspended i rest reading →
    (s.spawned i).resumed = true ∨
      (s.spawned i).done = false ∧ (s.spawned i).waiter = true

/-- A step of a runner sends the parent nowhere but to its read, and touches no
join. -/
theorem race_frame {s t : State Value Exc} {a : Action Value Exc}
    (hstep : race s a = some t) :
    t.spawned = s.spawned ∧
      (t.parent = s.parent ∨ t.parent = .read ∨ t.parent = .terminated) := by
  cases a with
  | store i =>
      rw [race] at hstep
      split at hstep
      · next outcome hrunner =>
          cases hstep
          cases outcome <;> exact ⟨rfl, .inl rfl⟩
      · cases hstep
  | resume i =>
      rw [race] at hstep
      split at hstep
      · cases hstep
        refine ⟨rfl, .inr ?_⟩
        change (if s.ex then ParentPc.read else .terminated) = _ ∨ _
        cases s.ex with
        | true => exact .inl rfl
        | false => exact .inr rfl
      · cases hstep
  | finish | tryComplete | requestCancelOther | storeThrows | complete =>
      rw [race] at hstep
      split at hstep
      · cases hstep
        exact ⟨rfl, .inl rfl⟩
      · cases hstep
  | runnerReturns | joinComplete | parent => cases hstep

theorem setSpawned_same (s : State Value Exc) (i : Fin 2) (join : Join) :
    (s.setSpawned i join).spawned i = join :=
  Function.update_self ..

theorem setSpawned_other (s : State Value Exc) {i j : Fin 2} (hj : j ≠ i)
    (join : Join) : (s.setSpawned i join).spawned j = s.spawned j :=
  Function.update_of_ne hj ..

/-- One join moves on, and takes with it a parent that sleeps in it. -/
theorem Awaited.setSpawned {s : State Value Exc} (hs : Awaited s) {i : Fin 2}
    {join : Join}
    (hresumed : (s.spawned i).resumed = true → join.resumed = true)
    (hwaiting : (s.spawned i).done = false ∧ (s.spawned i).waiter = true →
      join.resumed = true ∨ join.done = false ∧ join.waiter = true) :
    Awaited (s.setSpawned i join) := by
  intro j rest reading hpc
  by_cases hj : j = i
  · subst hj
    rw [setSpawned_same]
    exact (hs j rest reading hpc).elim (fun h => .inl (hresumed h)) hwaiting
  · rw [setSpawned_other s hj]
    exact hs j rest reading hpc

theorem leave_awaited {s t : State Value Exc} {a : Action Value Exc} (hjoin : JoinOk s)
    (hs : Awaited s) (hstep : leave s a = some t) : Awaited t := by
  cases a with
  | runnerReturns i =>
      rw [leave, Option.ite_none_right_eq_some] at hstep
      obtain ⟨-, hstep⟩ := hstep
      cases hstep
      exact hs.setSpawned id .inr
  | joinComplete i =>
      rw [leave, Option.ite_none_right_eq_some, Bool.and_eq_true,
        Bool.not_eq_true'] at hstep
      obtain ⟨⟨-, hopen⟩, hstep⟩ := hstep
      cases hstep
      refine hs.setSpawned (fun hresumed => ?_) fun hwaiting => .inl hwaiting.2
      have hdone := hjoin.resumed i hresumed
      rw [hopen] at hdone
      cases hdone
  | _ => cases hstep

/-- A step that puts the parent to sleep has it registered. -/
theorem proceed_awaited {s t : State Value Exc} (hstep : proceed s = some t) :
    Awaited t := by
  have hawake : ∀ {s : State Value Exc}, (∀ i rest reading,
      s.parent ≠ .join .suspended i rest reading) → Awaited s :=
    fun hparent i rest reading hpc => absurd hpc (hparent i rest reading)
  have hnext : ∀ (reading : Reading Value Exc) (left : List (Fin 2)) i rest reading',
      ParentPc.next reading left ≠ .join .suspended i rest reading' := by
    intro reading left i rest reading' hpc
    cases left <;> cases hpc
  rw [proceed] at hstep
  split at hstep
  · cases hstep
    exact hawake fun i rest reading hpc => by split at hpc <;> cases hpc
  · cases hstep
    exact hawake fun i rest reading hpc => by split at hpc <;> cases hpc
  · cases hstep
    exact hawake fun i rest reading hpc => by cases hpc
  · split at hstep
    · cases hstep
      exact hawake fun i rest reading hpc => by cases hpc
    · cases hstep
      exact hawake fun i rest reading hpc => by cases hpc
    · cases hstep
      exact hawake fun i rest reading hpc => by cases hpc
  · cases hstep
    exact hawake (hnext _ _)
  · next stage i rest reading hpc =>
      cases stage with
      | ready =>
          rw [joinStep] at hstep
          split at hstep
          · cases hstep
            exact hawake (hnext _ _)
          · cases hstep
            exact hawake fun i rest reading hpc => by cases hpc
      | suspend =>
          rw [joinStep] at hstep
          split at hstep
          · cases hstep
            exact hawake (hnext _ _)
          · next hopen =>
              cases hstep
              intro j rest' reading' hasleep
              cases hasleep
              rw [Bool.not_eq_true] at hopen
              refine .inr ?_
              change ((s.setSpawned i _).spawned i).done = false ∧
                ((s.setSpawned i _).spawned i).waiter = true
              rw [setSpawned_same]
              exact ⟨hopen, rfl⟩
      | suspended =>
          rw [joinStep, Option.ite_none_right_eq_some] at hstep
          obtain ⟨-, hstep⟩ := hstep
          cases hstep
          exact hawake (hnext _ _)
  · cases hstep

theorem race_awaited {s t : State Value Exc} {a : Action Value Exc} (hs : Awaited s)
    (hstep : race s a = some t) : Awaited t := by
  obtain ⟨hspawned, hparent⟩ := race_frame hstep
  intro i rest reading hpc
  rw [hspawned]
  obtain hsame | hread | hterminated := hparent
  · exact hs i rest reading (hsame.symm.trans hpc)
  · cases hread.symm.trans hpc
  · cases hterminated.symm.trans hpc

/-- What holds of the joins in every run, whenever the parent looks. -/
structure WaitOk (s : State Value Exc × Nat) : Prop where
  join : JoinOk s.1
  awaited : Awaited s.1

theorem step_waitOk {s t : State Value Exc × Nat} {a : Action Value Exc}
    (hs : WaitOk s) (hstep : (countedSystem Value Exc).step s a = some t) :
    WaitOk t := by
  have hnext : step s.1 a = some t.1 := (TransitionSystem.counted_step hstep).1
  refine ⟨step_joinOk hs.join hnext, ?_⟩
  have hleave : leave s.1 a = some t.1 → Awaited t.1 := leave_awaited hs.join hs.awaited
  have hrun : race s.1 a = some t.1 → Awaited t.1 := race_awaited hs.awaited
  cases a with
  | parent => exact proceed_awaited hnext
  | runnerReturns | joinComplete => exact hleave hnext
  | finish | tryComplete | requestCancelOther | store | storeThrows | complete
  | resume =>
      exact hrun hnext

theorem waitOk_of_reachableUnder
    {allowed : State Value Exc × Nat → Action Value Exc → Prop}
    {s : State Value Exc × Nat}
    (hs : (countedSystem Value Exc).ReachableUnder allowed s) : WaitOk s := by
  have hstart : WaitOk (countedSystem Value Exc).start := ⟨start_joinOk, nofun⟩
  exact hs.invariant hstart fun _ _ _ hinv _ hstep => step_waitOk hinv hstep

/-! ### The race -/

theorem Runner.toRace_ended {T T' : Type u} (f : T → T') (runner : Runner Exc T) :
    (runner.toRace f).ended = runner.ended := by
  cases runner <;> rfl

theorem Runner.toRace_thrown {T T' : Type u} (f : T → T') (runner : Runner Exc T) :
    runner.toRace f = .thrown ↔ runner = .thrown := by
  cases runner with
  | thrown => exact ⟨fun _ => rfl, fun _ => rfl⟩
  | running | finished | lost | won | cancelled | stored | resuming | completed =>
      exact ⟨nofun, nofun⟩

theorem ParentPc.toRace_suspended (pc : ParentPc Value Exc) :
    pc.toRace = .suspended ↔ pc = .suspended := by
  cases pc with
  | suspended => exact ⟨fun _ => rfl, fun _ => rfl⟩
  | ready | suspend | storeEx | exchange | read | join | returned | terminated =>
      exact ⟨nofun, nofun⟩

/-- A step of a runner of `when_any` that is one here calls `complete` or throws
when this one does. -/
theorem Action.toRace_calls {a : Action Value Exc}
    {b : WhenAny.Action (fun _ : Fin 2 => Variant Value) Exc} (hb : a.toRace = some b) :
    b.completes = a.completes ∧ b.throws = a.throws := by
  cases a with
  | finish | tryComplete | store | storeThrows | complete | resume =>
      cases hb
      exact ⟨rfl, rfl⟩
  | requestCancelOther | runnerReturns | joinComplete | parent => nomatch hb

theorem Action.toRace_none {a : Action Value Exc} (ha : a.toRace = none) :
    a.completes = false := by
  cases a with
  | complete => nomatch ha
  | _ => rfl

/-- The counted runs are counted runs of `when_any`. -/
theorem countedStep_toRace {s t : State Value Exc × Nat} {a : Action Value Exc}
    (hs : WaitOk s) (hstep : (countedSystem Value Exc).step s a = some t) :
    (t.1.toRace, t.2) = (s.1.toRace, s.2) ∨
      ∃ b : WhenAny.Action (fun _ : Fin 2 => Variant Value) Exc,
        (b.throws = true → a.throws = true) ∧
          (WhenAny.countedSystem (WhenAny.container 1 (Variant Value)) Exc).step
            (s.1.toRace, s.2) b = some (t.1.toRace, t.2) := by
  obtain ⟨s, calls⟩ := s
  obtain ⟨t, total⟩ := t
  obtain ⟨hnext, rfl⟩ : step s a = some t ∧ total = calls + a.completes.toNat :=
    TransitionSystem.counted_step hstep
  have hrun : race s a = some t → (t.toRace, calls + a.completes.toNat) =
      (s.toRace, calls) ∨ ∃ b, (b.throws = true → a.throws = true) ∧
        (WhenAny.countedSystem _ Exc).step (s.toRace, calls) b =
          some (t.toRace, calls + a.completes.toNat) := by
    intro hrace
    obtain ⟨ha, hsame⟩ | ⟨b, hb, hmove⟩ := race_toRace hs.join.remaining hrace
    · rw [hsame, Action.toRace_none ha]
      exact .inl rfl
    · obtain ⟨hcompletes, hthrows⟩ := Action.toRace_calls hb
      refine .inr ⟨b, fun h => hthrows ▸ h, ?_⟩
      rw [← hcompletes]
      refine TransitionSystem.counted_step_of WhenAny.Action.completes ?_ calls
      cases b with
      | parent => exact absurd rfl (Action.toRace_ne_parent hb)
      | finish | tryComplete | store | storeThrows | complete | resume => exact hmove
  have hleave : leave s a = some t → t.toRace = s.toRace := leave_toRace
  cases a with
  | parent =>
      refine (proceed_race hnext).imp (fun hsame => ?_) fun hproceed =>
        ⟨.parent, nofun, ?_⟩
      · rw [hsame]
        rfl
      · exact TransitionSystem.counted_step_of WhenAny.Action.completes hproceed calls
  | runnerReturns | joinComplete =>
      rw [hleave hnext]
      exact .inl rfl
  | finish | tryComplete | requestCancelOther | store | storeThrows | complete
  | resume =>
      exact hrun hnext

theorem toRace_reachableUnder {s : State Value Exc × Nat}
    {allowed : State Value Exc × Nat → Action Value Exc → Prop}
    (allowed' : WhenAny.State (WhenAny.container 1 (Variant Value)) Exc × Nat →
      WhenAny.Action (fun _ : Fin 2 => Variant Value) Exc → Prop)
    (hallowed : ∀ s a b, allowed s a → (b.throws = true → a.throws = true) →
      allowed' (s.1.toRace, s.2) b)
    (hs : (countedSystem Value Exc).ReachableUnder allowed s) :
    (WhenAny.countedSystem (WhenAny.container 1 (Variant Value)) Exc).ReachableUnder
      allowed' (s.1.toRace, s.2) :=
  hs.refine _ allowed' (fun s => (s.1.toRace, s.2)) rfl fun s a _ hs ha hstep =>
    (countedStep_toRace (waitOk_of_reachableUnder hs) hstep).imp id
      fun ⟨b, hb, hnext⟩ => ⟨b, hallowed s a b ha hb, hnext⟩

/-- What the winner has to do is done unless its store threw. -/
theorem completes_iff {s : State Value Exc} {calls : Nat} (hs : WaitOk (s, calls))
    (hrace : WhenAny.RunOk (s.toRace, calls)) :
    Completes s calls ↔ ∀ i, s.runner i ≠ .thrown := by
  have hrunner : ∀ i, s.toRace.runner i = (s.runner i).toRace (Sigma.mk i) :=
    fun _ => rfl
  have hthrown : (∀ i, s.toRace.runner i ≠ .thrown) ↔ ∀ i, s.runner i ≠ .thrown :=
    forall_congr' fun i => not_congr (Runner.toRace_thrown _ _)
  rw [← hthrown, ← hrace.completes_iff]
  constructor
  · intro h
    constructor
    case winner =>
      intro i
      rw [hrunner, Runner.toRace_winner, Runner.toRace_ended, toRace_collect]
      exact h.winner i
    case parent =>
      intro hall
      refine mt (ParentPc.toRace_suspended s.parent).mp (h.parent fun i => ?_)
      rw [← Runner.toRace_ended (Sigma.mk i)]
      exact hall i
  · intro h
    constructor
    case winner =>
      intro i
      have hwinner := h.winner i
      rw [hrunner, Runner.toRace_winner, Runner.toRace_ended, toRace_collect] at hwinner
      exact hwinner
    case parent =>
      intro hall
      refine mt (ParentPc.toRace_suspended s.parent).mpr (h.parent fun i => ?_)
      rw [hrunner, Runner.toRace_ended]
      exact hall i
    case joins =>
      intro hall i rest reading hpc
      refine (hs.awaited i rest reading hpc).resolve_right fun hopen => ?_
      rw [hall i] at hopen
      nomatch hopen.1

/-! ### Every run -/

theorem toRace_runOk {s : State Value Exc × Nat}
    {allowed : State Value Exc × Nat → Action Value Exc → Prop}
    (hs : (countedSystem Value Exc).ReachableUnder allowed s) :
    WhenAny.RunOk (s.1.toRace, s.2) :=
  WhenAny.runOk_of_reachableUnder
    (toRace_reachableUnder (fun _ _ => True) (fun _ _ _ _ _ => trivial) hs)

theorem not_thrown_of_reachableUnder {s : State Value Exc × Nat}
    (hs : (countedSystem Value Exc).ReachableUnder (fun _ a => a.throws = false) s) :
    ∀ i, s.1.runner i ≠ .thrown := by
  have hkept : WhenAny.Kept (s.1.toRace, s.2) := WhenAny.kept_of_reachableUnder
    (toRace_reachableUnder (fun _ b => b.throws = false)
      (fun _ _ _ ha hb => Bool.eq_false_iff.mpr (mt hb (Bool.eq_false_iff.mp ha))) hs)
  exact fun i => mt (Runner.toRace_thrown (Sigma.mk i) _).mpr (hkept i)

/-- In every run of `when_any`, whichever the overload, and of
`when_any_cancel_join` in which no `set_value` throws, a winner that has run to its
end has stored its outcome and called `complete` once, and the parent does not
sleep when all have ended.  Where some `set_value` has thrown this fails. -/
theorem winner_completes_iff_stores {n : Nat} {Item : Fin (n + 1) → Type u}
    (o : WhenAny.Overload Item) (Value : Fin 2 → Type u) (Exc : Type v) :
    ((∀ s, (WhenAny.countedSystem o Exc).ReachableUnder
          (fun _ a => a.throws = false) s → WhenAny.Completes s.1 s.2) ∧
      ∀ s, (WhenAny.countedSystem o Exc).Reachable s →
        (WhenAny.Completes s.1 s.2 ↔ ∀ i, s.1.runner i ≠ .thrown)) ∧
    ((∀ s, (countedSystem Value Exc).ReachableUnder (fun _ a => a.throws = false) s →
        Completes s.1 s.2) ∧
      ∀ s, (countedSystem Value Exc).Reachable s →
        (Completes s.1 s.2 ↔ ∀ i, s.1.runner i ≠ .thrown)) := by
  refine ⟨⟨fun s hs => ?_, fun s hs => ?_⟩, fun s hs => ?_, fun s hs => ?_⟩
  · exact (WhenAny.runOk_of_reachableUnder hs).completes_iff.mpr
      (WhenAny.kept_of_reachableUnder hs)
  · exact (WhenAny.runOk_of_reachableUnder hs).completes_iff
  · exact (completes_iff (waitOk_of_reachableUnder hs) (toRace_runOk hs)).mpr
      (not_thrown_of_reachableUnder hs)
  · exact completes_iff (waitOk_of_reachableUnder hs) (toRace_runOk hs)

end CancelJoin

namespace WhenAny

/-- The parent sleeps; the first of two tasks wins and its value throws while it is
stored; the other loses. -/
def storeFails : List (Action (fun _ : Fin 2 => Nat) Unit) :=
  [.parent, .parent, .parent, .parent, .finish 0 (.ok 7), .tryComplete 0,
    .storeThrows 0, .finish 1 (.ok 8), .tryComplete 1]

/-- Both runners are at their ends, nobody has called `complete`, and the parent is
suspended. -/
def forsaken (s : State (container 1 Nat) Unit × Nat) : Bool :=
  s.2 == 0 && decide (∀ i, (s.1.runner i).ended = true) &&
    match s.1.parent with
    | .suspended => true
    | _ => false

theorem not_completes_storeFails :
    ¬ ∀ (n : Nat) (Value : Fin (n + 1) → Type) (o : Overload Value) (Exc : Type)
      (s : State o Exc × Nat), (countedSystem o Exc).Reachable s →
        Completes s.1 s.2 := by
  intro hall
  obtain ⟨s, hs, hend⟩ := TransitionSystem.exists_reachable_of_exec
    (countedSystem (container 1 Nat) Unit) storeFails forsaken (by decide)
  have hcompletes := hall 1 _ _ Unit s hs
  rw [forsaken, Bool.and_eq_true, Bool.and_eq_true, decide_eq_true_eq] at hend
  obtain ⟨⟨-, hended⟩, hparent⟩ := hend
  have hawake := hcompletes.parent hended
  split at hparent
  · next hsuspended => exact hawake hsuspended
  · nomatch hparent

end WhenAny

namespace CancelJoin

/-- The winner has called `complete` once and the pair has been returned. -/
def completedOnce (s : State (fun _ : Fin 2 => Nat) Unit × Nat) : Bool :=
  s.2 == 1 && returnedSeven s.1

theorem winner_completes_timerWins :
    ∃ s : State (fun _ : Fin 2 => Nat) Unit × Nat,
      completedOnce s = true ∧ Completes s.1 s.2 := by
  obtain ⟨s, hs, hend⟩ := TransitionSystem.exists_reachableUnder_of_execUnder
    (countedSystem (fun _ : Fin 2 => Nat) Unit) (fun _ a => a.throws = false)
    timerWins completedOnce (by decide)
  exact ⟨s, hend, (winner_completes_iff_stores (WhenAny.containerVoid 0)
    (fun _ : Fin 2 => Nat) Unit).2.1 s hs⟩

end CancelJoin

end Iocoro
