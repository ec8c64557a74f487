/-
An `async_resolve` is resumed once: with `operation_aborted` after a stop request, or with
what the pool has found, whichever comes first.
-/
import Iocoro.Resolver

namespace Iocoro

namespace Resolver

universe u

variable {Info Endpoint : Type u} {convert : Info → Option Endpoint}
  {s t : State Info Endpoint}

/-- A party takes a step of its end. -/
theorem Sources.finish (hs : Sources convert s) {p : Party} {last : Finish Endpoint}
    (hshared : t.shared = s.shared.finish p last) (hstop : t.stopRequested = s.stopRequested)
    (hanswer : t.answer = s.answer)
    (hp : s.stage p = last.stage) (hrace : Race.Inv (Writes convert) s.race)
    (hwhy : p = .worker ∨ s.stopRequested = true)
    (hstops : t.suspend.stops = true → s.stopRequested = true)
    (hruns : t.callback.runs = true → s.stopRequested = true)
    (hvalue : ∀ value, t.worker.stage.value = some value →
      s.worker.stage.value = some value) : Sources convert t where
  stops := hstop ▸ hstops
  runs := hstop ▸ hruns
  winner := by
    intro q hq
    rw [hshared] at hq
    rw [hstop]
    rcases s.shared.finish_winner last hq with hold | rfl
    · exact hs.winner q hold
    · exact hwhy
  value := by
    intro value hval
    rw [State.outcome, hanswer]
    exact hs.value value (hvalue value hval)
  written := by
    intro hwinner value hmem
    rw [hshared] at hwinner hmem
    rw [State.outcome, hanswer]
    rcases Shared.finish_writes hrace hp hwinner value hmem with ⟨hold, hmem⟩ | ⟨hp', hval⟩
    · exact hs.written hold value hmem
    · subst hp'
      refine hs.value value ?_
      change (s.stage .worker).value = some value
      rw [hp]
      exact hval

/-- A step that leaves the shared state alone. -/
theorem Sources.keep (hs : Sources convert s) (hwinner : t.shared.winner = s.shared.winner)
    (hwrites : t.shared.writes = s.shared.writes) (hstop : t.stopRequested = s.stopRequested)
    (hanswer : t.answer = s.answer)
    (hstops : t.suspend.stops = true → s.stopRequested = true)
    (hruns : t.callback.runs = true → s.stopRequested = true)
    (hvalue : ∀ value, t.worker.stage.value = some value →
      s.worker.stage.value = some value) : Sources convert t where
  stops := hstop ▸ hstops
  runs := hstop ▸ hruns
  winner := by
    rw [hwinner, hstop]
    exact hs.winner
  value := by
    intro value hval
    rw [State.outcome, hanswer]
    exact hs.value value (hvalue value hval)
  written := by
    rw [hwinner, hwrites]
    intro hworker value hmem
    rw [State.outcome, hanswer]
    exact hs.written hworker value hmem

theorem Sources.suspend {ok : Bool} (hs : Sources convert s)
    (hrace : Race.Inv (Writes convert) s.race) (hstep : SuspendStep s ok t) :
    Sources convert t := by
  cases hstep with
  | move _ _ _ _ _ hstops =>
      refine hs.keep rfl rfl rfl rfl (fun h => ?_) hs.runs fun _ => id
      cases hstops.symm.trans h
  | start _ _ _ _ _ _ hstop =>
      exact hs.keep rfl rfl rfl rfl (fun _ => hstop) hs.runs fun _ => id
  | leave _ _ _ _ _ hstops =>
      refine hs.keep rfl rfl rfl rfl (fun h => ?_) hs.runs fun _ => id
      cases hstops.symm.trans h
  | register =>
      refine hs.keep rfl rfl rfl rfl (fun h => ?_) (fun h => ?_) fun _ => id
      · cases h
      · cases h
  | finish hbefore hstage _ _ _ _ _ hstops =>
      have hstop := hs.stops (hbefore ▸ hstops)
      exact hs.finish (p := .suspend) rfl rfl rfl
        ((congrArg Suspend.stage hbefore).trans hstage) hrace (.inr hstop)
        (fun _ => hstop) hs.runs fun _ => id
  | postTask hbefore =>
      refine hs.keep rfl rfl rfl rfl (fun h => ?_) hs.runs fun value hval => ?_
      · cases h
      · exfalso
        cases ok with
        | true => cases hval
        | false => cases hval

theorem Finish.next_value {p : Party} {done : Bool} {last : Finish Endpoint}
    {value : Resolved Endpoint} (hval : (last.next p done).stage.value = some value) :
    last.stage.value = some value := by
  cases last with
  | exchange other =>
      rw [Finish.next] at hval
      split at hval
      · cases hval
      · exact hval
  | write other =>
      rw [Finish.next] at hval
      split at hval
      · cases hval
      · cases hval
  | reset | post | ended => cases hval

theorem Callback.reset_runs (callback : Callback Endpoint) :
    callback.reset.runs = false := by
  cases callback with
  | none | registered | running | removed => rfl

theorem Sources.preserved {a : Action Info} (hs : Sources convert s)
    (hrace : Race.Inv (Writes convert) s.race) (hstep : step convert s a = some t) :
    Sources convert t := by
  cases a with
  | requestStop =>
      cases hstep
      exact ⟨fun _ => rfl, fun _ => rfl, fun _ _ => .inr rfl, hs.value, hs.written⟩
  | suspend ok => exact hs.suspend hrace (suspendStep_cases hstep)
  | callback =>
      rcases callbackStep_cases hstep with ⟨hstop, _, rfl⟩ | ⟨last, hold, _, rfl⟩
      · exact hs.keep rfl rfl rfl rfl hs.stops (fun _ => hstop) fun _ => id
      · have hstop := hs.runs (hold ▸ rfl)
        exact hs.finish (p := .callback) rfl rfl rfl (congrArg Callback.stage hold) hrace
          (.inr hstop) hs.stops (fun _ => hstop) fun _ => id
  | answer answer room =>
      obtain ⟨hqueued, rfl⟩ := step_answer hstep
      refine ⟨hs.stops, hs.runs, hs.winner, fun value hval => hval, ?_⟩
      intro hwinner
      -- the task cannot have won before it has an answer
      have hmade := hrace.made .worker hwinner
      have hidle : s.race.stage .worker = .idle := congrArg Worker.stage hqueued
      rw [hidle] at hmade
      cases hmade
  | worker =>
      rcases workerStep_cases hstep with ⟨hold, _, rfl⟩ | ⟨last, hold, _, rfl⟩
      · refine hs.keep rfl rfl rfl rfl hs.stops (fun h => ?_) fun value hval => ?_
        · cases (s.callback.reset_runs).symm.trans h
        · cases hval
      · exact hs.finish (p := .worker) rfl rfl rfl (congrArg Worker.stage hold) hrace
          (.inl rfl) hs.stops hs.runs fun value hval =>
            (congrArg (fun w => (Worker.stage w).value) hold).trans (Finish.next_value hval)
  | resume =>
      obtain ⟨-, -, rfl⟩ := step_resume hstep
      exact hs.keep rfl rfl rfl rfl hs.stops hs.runs fun _ => id

theorem Sources.reachable {hasToken : Bool}
    (hs : (system convert hasToken).Reachable s) : Sources convert s := by
  induction hs with
  | start =>
      refine ⟨fun h => ?_, fun h => ?_, fun p h => ?_, fun value h => ?_, fun h => ?_⟩
      all_goals cases h
  | step hs _ hstep ih =>
      exact ih.preserved (race_inv hs) hstep

/-! ### What holds in every run -/

/-- The continuation is posted at most once, and after `res` was written; nobody writes
`res` from then on.  The coroutine is resumed with the value of the party that has set
`done`: an abort after a stop request, an error, or the endpoints of the list that
`::getaddrinfo` gave, in its order. -/
structure Once (convert : Info → Option Endpoint) (s : State Info Endpoint) : Prop where
  posts : s.shared.posts ≤ 1
  written : s.shared.posts = 1 → s.shared.writes = [s.shared.res]
  still : ∀ p value, s.shared.posts = 1 → s.stage p ≠ .write value
  resumed : ∀ value, s.shared.resumed = some value → s.shared.posts = 1 ∧
    value = s.shared.res ∧
    (value = aborted ∧ s.stopRequested = true ∨ s.outcome convert = some value)
  found : ∀ endpoints, s.shared.resumed = some (.ok endpoints) →
    ∃ infos room, s.answer = some (.list infos, room) ∧
      endpoints = infos.filterMap convert

theorem resolve_ok {answer : Answer Info} {room : Nat} {endpoints : List Endpoint}
    (hok : (resolve convert room answer).1 = .ok endpoints) :
    ∃ infos, answer = .list infos ∧ endpoints = infos.filterMap convert := by
  cases answer with
  | failed code => cases hok
  | list infos =>
      rw [resolve_list] at hok
      split at hok
      · cases hok
        exact ⟨infos, rfl, rfl⟩
      · cases hok

theorem once_of_inv (hrace : Race.Inv (Writes convert) s.race)
    (hs : Sources convert s) : Once convert s := by
  obtain ⟨hposts, hpublished⟩ := hrace.published
  have hresumed : ∀ value, s.shared.resumed = some value → s.shared.posts = 1 ∧
      value = s.shared.res ∧
      (value = aborted ∧ s.stopRequested = true ∨ s.outcome convert = some value) := by
    intro value hvalue
    obtain ⟨hpos, hres⟩ := hrace.taken value hvalue
    have hone : s.race.posts = 1 := by omega
    refine ⟨hone, hres, ?_⟩
    obtain ⟨p, other, hwinner, hwrites, hlist, hcell⟩ := hpublished hone
    obtain rfl : value = other := hres.trans hcell
    have hmem : value ∈ s.shared.writes := by
      change s.shared.writes = [value] at hlist
      rw [hlist]
      exact List.mem_singleton_self value
    cases p with
    | worker => exact .inr (hs.written hwinner value hmem)
    | suspend | callback =>
        rcases hs.winner _ hwinner with hp | hstop
        · cases hp
        · exact .inl ⟨hwrites, hstop⟩
  exact
    { posts := hposts
      written := by
        intro hone
        obtain ⟨p, value, _, _, hlist, hcell⟩ := hpublished hone
        change s.shared.writes = [value] at hlist
        rw [hlist, ← hcell]
        rfl
      still := by
        intro p value hone hp
        have hwon : s.race.winner = some p := hrace.won p (by
          change (s.stage p).won = true
          rw [hp]
          rfl)
        have hmade := hrace.made p hwon
        change (s.stage p).made = some (s.shared.writes.length, s.shared.posts) at hmade
        rw [hp] at hmade
        have hzero := (Prod.mk.inj (Option.some.inj hmade)).2
        omega
      resumed := hresumed
      found := by
        intro endpoints hvalue
        obtain ⟨-, -, haborted | hfound⟩ := hresumed _ hvalue
        · cases haborted.1
        · obtain ⟨⟨answer, room⟩, hanswer, hok⟩ := Option.map_eq_some_iff.mp hfound
          obtain ⟨infos, rfl, rfl⟩ := resolve_ok hok
          exact ⟨infos, room, hanswer, rfl⟩ }

/-- In every run the awaiting coroutine is resumed at most once, with the value of one
party that was written before. -/
theorem resolves_once (convert : Info → Option Endpoint) (hasToken : Bool)
    (s : State Info Endpoint) (hs : (system convert hasToken).Reachable s) :
    Once convert s :=
  once_of_inv (race_inv hs) (Sources.reachable hs)

/-- Even numbers are addresses that can be converted. -/
def evens (n : Nat) : Option Nat := if n % 2 = 0 then some (n / 2) else none

/-- A stop is requested while the pool is at work, and comes too late. -/
def resolveThenStop : List (Action Nat) :=
  List.replicate 5 (.suspend true) ++
    [.answer (.list [3, 8, 5, 6]) 2, .worker, .requestStop, .callback, .worker, .callback,
      .worker, .worker, .resume]

theorem resolves_once_resolveThenStop :
    ∃ s, s.shared.resumed.any (fun value => value.toOption == some [4, 3]) = true ∧
      Once evens s := by
  obtain ⟨s, hs, hend⟩ := TransitionSystem.exists_reachable_of_exec (system evens true)
    resolveThenStop (fun s => s.shared.resumed.any fun value =>
      value.toOption == some [4, 3]) (by decide)
  exact ⟨s, hend, resolves_once evens true s hs⟩

/-! ### The end of an `async_resolve` -/

/-- The steps of the parties, with a pool that takes the task. -/
def Continues : Action Info → Prop
  | .suspend ok => ok = true
  | .callback | .answer _ _ | .worker => True
  | .requestStop | .resume => False

def Finish.work : Finish Endpoint → Nat
  | .exchange _ => 4
  | .write _ => 3
  | .reset => 2
  | .post => 1
  | .ended => 0

def Suspend.work : Suspend Endpoint → Nat
  | .store => 30
  | .checkStop => 29
  | .register => 27
  | .inlined last => 14 + last.work
  | .stopped last => 10 + last.work
  | .assignCb => 12
  | .postTask => 11
  | .returned => 0

def Callback.work : Callback Endpoint → Nat
  | .none => 6
  | .registered => 5
  | .running last => last.work
  | .removed => 0

def Worker.work : Worker Endpoint → Nat
  | .none => 6
  | .queued => 5
  | .finish last => last.work
  | .lost => 0

/-- The steps that the parties can still take. -/
def State.work (s : State Info Endpoint) : Nat :=
  s.suspend.work + s.callback.work + s.worker.work

theorem Finish.next_work (p : Party) (done : Bool) {last : Finish Endpoint}
    (hopen : last.isEnded = false) : (last.next p done).work < last.work := by
  cases last with
  | exchange value =>
      rw [Finish.next]
      split
      · exact Nat.zero_lt_succ _
      · exact Nat.lt_succ_self _
  | write value =>
      rw [Finish.next]
      split
      · exact Nat.lt_succ_self _
      · exact Nat.lt_succ_of_lt (Nat.lt_succ_self _)
  | reset | post => exact Nat.lt_succ_self _
  | ended => cases hopen

theorem suspendStep_work (hs : Order s) (hstep : s.suspendStep true = some t) :
    t.work < s.work := by
  -- the others keep their work where only `await_suspend` moves
  have hmove : ∀ (after : Suspend Endpoint) (shared : Shared Endpoint),
      after.work < s.suspend.work →
        State.work { s with shared, suspend := after } < s.work := fun after shared hlt =>
    Nat.add_lt_add_right (Nat.add_lt_add_right hlt _) _
  cases hsuspend : s.suspend with
  | store =>
      simp only [State.suspendStep, hsuspend] at hstep
      cases hstep
      refine hmove _ s.shared ?_
      rw [hsuspend]
      split
      · exact (by decide : 29 < 30)
      · exact (by decide : 11 < 30)
  | checkStop =>
      simp only [State.suspendStep, hsuspend] at hstep
      cases hstep
      refine hmove _ s.shared ?_
      rw [hsuspend]
      split
      · exact (by decide : 14 < 29)
      · exact (by decide : 27 < 29)
  | stopped last =>
      cases last with
      | ended =>
          simp only [State.suspendStep, hsuspend] at hstep
          cases hstep
          refine hmove .returned s.shared ?_
          rw [hsuspend]
          exact (by decide : 0 < 10)
      | exchange | write | reset | post =>
          simp only [State.suspendStep, hsuspend] at hstep
          cases hstep
          refine hmove _ _ ?_
          rw [hsuspend]
          exact Nat.add_lt_add_left (Finish.next_work _ _ rfl) 10
  | register =>
      simp only [State.suspendStep, hsuspend] at hstep
      have hnone : s.callback = .none := hs.callback (hsuspend ▸ rfl)
      split at hstep
      · cases hstep
        refine hmove _ s.shared ?_
        rw [hsuspend]
        exact (by decide : 18 < 27)
      · cases hstep
        simp only [State.work, hsuspend, hnone, Suspend.work, Callback.work]
        omega
  | inlined last =>
      cases last with
      | ended =>
          simp only [State.suspendStep, hsuspend] at hstep
          cases hstep
          refine hmove .assignCb s.shared ?_
          rw [hsuspend]
          exact (by decide : 12 < 14)
      | exchange | write | reset | post =>
          simp only [State.suspendStep, hsuspend] at hstep
          cases hstep
          refine hmove _ _ ?_
          rw [hsuspend]
          exact Nat.add_lt_add_left (Finish.next_work _ _ rfl) 14
  | assignCb =>
      simp only [State.suspendStep, hsuspend] at hstep
      cases hstep
      refine hmove .postTask s.shared ?_
      rw [hsuspend]
      exact (by decide : 11 < 12)
  | postTask =>
      simp only [State.suspendStep, hsuspend] at hstep
      cases hstep
      have hnone : s.worker = .none := hs.worker (hsuspend ▸ rfl)
      simp only [State.work, hsuspend, hnone, Suspend.work, Worker.work, ↓reduceIte]
      omega
  | returned =>
      simp only [State.suspendStep, hsuspend] at hstep
      cases hstep

theorem Callback.reset_work (callback : Callback Endpoint) :
    callback.reset.work ≤ callback.work := by
  cases callback with
  | none => exact Nat.le_refl _
  | registered | running | removed => exact Nat.zero_le _

theorem step_work {a : Action Info} (hs : Order s) (hcontinues : Continues a)
    (hstep : step convert s a = some t) : t.work < s.work := by
  cases a with
  | requestStop | resume => cases hcontinues
  | suspend ok =>
      obtain rfl : ok = true := hcontinues
      exact suspendStep_work hs hstep
  | callback =>
      rcases callbackStep_cases hstep with ⟨_, hold, rfl⟩ | ⟨last, hold, hopen, rfl⟩
      · simp only [State.work, hold, Callback.work, Finish.work]
        omega
      · have hnext := Finish.next_work .callback s.shared.done hopen
        simp only [State.work, hold, Callback.work]
        omega
  | answer answer room =>
      obtain ⟨hold, rfl⟩ := step_answer hstep
      simp only [State.work, hold, Worker.work, Finish.work]
      omega
  | worker =>
      rcases workerStep_cases hstep with ⟨hold, _, rfl⟩ | ⟨last, hold, hopen, rfl⟩
      · have hreset := s.callback.reset_work
        simp only [State.work, hold, Worker.work, Finish.work]
        omega
      · have hnext := Finish.next_work .worker s.shared.done hopen
        simp only [State.work, hold, Worker.work]
        omega

theorem Refines.inv (hs : Race.Inv (Writes convert) s.race) (hstep : Refines convert s t) :
    Race.Inv (Writes convert) t.race := by
  rcases hstep with hsame | ⟨a, hallowed, hrace⟩
  · rw [hsame]
    exact hs
  · exact hs.preserved hallowed hrace

theorem Shared.finish_posts (x : Shared Endpoint) (p : Party) (last : Finish Endpoint) :
    x.posts ≤ (x.finish p last).posts := by
  cases last with
  | exchange =>
      rw [Shared.finish]
      split
      · exact Nat.le_refl _
      · exact Nat.le_refl _
  | write | reset | ended => exact Nat.le_refl _
  | post => exact Nat.le_succ _

/-- The winner publishes where the others are out of it. -/
theorem posted_of_ended (horder : Order s) (hrace : Race.Inv (Writes convert) s.race)
    (hlive : s.suspend.isReturned = false) (hearly : s.suspend.early = true)
    (hended : s.suspend.stage = .ended) : 0 < s.shared.posts := by
  have hrest : ∀ p, (s.stage p).won = false := by
    intro p
    cases p with
    | suspend =>
        change s.suspend.stage.won = false
        rw [hended]
        rfl
    | callback =>
        change s.callback.stage.won = false
        rw [horder.callback hearly]
        rfl
    | worker =>
        change s.worker.stage.won = false
        rw [horder.worker hlive]
        rfl
  rcases hrace.settles (i := .suspend) hended with hone | ⟨p, _, hwon⟩
  · change s.shared.posts = 1 at hone
    omega
  · cases (hrest p).symm.trans hwon

/-- When `await_suspend` has returned, the task or the continuation was posted. -/
def Handed (s : State Info Endpoint) : Prop :=
  s.suspend.isReturned = true → s.worker ≠ .none ∨ 0 < s.shared.posts

theorem SuspendStep.handed {ok : Bool} (horder : Order s)
    (hrace : Race.Inv (Writes convert) s.race) (hstep : SuspendStep s ok t) :
    Handed t := by
  intro hreturned
  cases hstep with
  | move _ _ _ hafter => cases hafter.symm.trans hreturned
  | start _ _ _ _ hafter => cases hafter.symm.trans hreturned
  | leave hbefore _ _ hlive _ _ hearly hended =>
      have hstage := hended hreturned
      subst hbefore
      have hposts := posted_of_ended (s := s) horder hrace hlive hearly hstage
      exact .inr hposts
  | register => cases hreturned
  | finish _ _ _ _ _ hlive => cases hlive.symm.trans hreturned
  | postTask =>
      left
      cases ok with
      | true | false =>
          intro h
          cases h

theorem Handed.preserved {a : Action Info} (hs : Handed s) (horder : Order s)
    (hrace : Race.Inv (Writes convert) s.race) (hstep : step convert s a = some t) :
    Handed t := by
  cases a with
  | requestStop =>
      cases hstep
      exact hs
  | suspend ok => exact (suspendStep_cases hstep).handed horder hrace
  | callback =>
      rcases callbackStep_cases hstep with ⟨_, _, rfl⟩ | ⟨last, _, _, rfl⟩
      · exact hs
      · intro hreturned
        have hposts := s.shared.finish_posts .callback last
        rcases hs hreturned with hsome | hpos
        · exact .inl hsome
        · exact .inr (Nat.lt_of_lt_of_le hpos hposts)
  | answer answer room =>
      obtain ⟨_, rfl⟩ := step_answer hstep
      refine fun _ => .inl fun h => ?_
      cases h
  | worker =>
      rcases workerStep_cases hstep with ⟨_, _, rfl⟩ | ⟨last, _, _, rfl⟩
      all_goals
        refine fun _ => .inl fun h => ?_
        cases h
  | resume =>
      obtain ⟨-, -, rfl⟩ := step_resume hstep
      exact hs

theorem Handed.reachable {hasToken : Bool} (hs : (system convert hasToken).Reachable s) :
    Handed s := by
  induction hs with
  | start =>
      intro h
      cases h
  | step hs _ hstep ih => exact ih.preserved (Order.reachable hs) (race_inv hs) hstep

/-- The invariant of a run with a pool that takes the task. -/
structure Live (convert : Info → Option Endpoint) (s : State Info Endpoint) : Prop where
  order : Order s
  race : Race.Inv (Writes convert) s.race
  handed : Handed s
  taken : s.worker ≠ .lost

theorem Live.preserved {a : Action Info} (hs : Live convert s) (hcontinues : Continues a)
    (hstep : step convert s a = some t) : Live convert t where
  order := hs.order.preserved hstep
  race := Refines.inv hs.race (step_refines hs.order hstep)
  handed := hs.handed.preserved hs.order hs.race hstep
  taken := by
    cases a with
    | requestStop | resume => cases hcontinues
    | suspend ok =>
        obtain rfl : ok = true := hcontinues
        cases suspendStep_cases hstep with
        | move | start | leave | register | finish => exact hs.taken
        | postTask =>
            intro h
            cases h
    | callback =>
        rcases callbackStep_cases hstep with ⟨_, _, rfl⟩ | ⟨last, _, _, rfl⟩
        · exact hs.taken
        · exact hs.taken
    | answer answer room =>
        obtain ⟨_, rfl⟩ := step_answer hstep
        intro h
        cases h
    | worker =>
        rcases workerStep_cases hstep with ⟨_, _, rfl⟩ | ⟨last, _, _, rfl⟩
        all_goals
          intro h
          cases h

/-- A party that has won is still at work. -/
theorem Finish.open_of_won {last : Finish Endpoint} (hwon : last.stage.won = true) :
    last.isEnded = false := by
  cases last with
  | exchange | ended => cases hwon
  | write | reset | post => rfl

theorem suspend_enabled (hlive : s.suspend.isReturned = false) :
    ∃ t, s.suspendStep true = some t := by
  cases hsuspend : s.suspend with
  | store | checkStop | assignCb | postTask =>
      simp only [State.suspendStep, hsuspend]
      exact ⟨_, rfl⟩
  | register =>
      simp only [State.suspendStep, hsuspend]
      split
      · exact ⟨_, rfl⟩
      · exact ⟨_, rfl⟩
  | stopped last | inlined last =>
      cases last with
      | exchange | write | reset | post | ended =>
          simp only [State.suspendStep, hsuspend]
          exact ⟨_, rfl⟩
  | returned =>
      rw [hsuspend] at hlive
      cases hlive

theorem callback_enabled {last : Finish Endpoint} (hcallback : s.callback = .running last)
    (hopen : last.isEnded = false) : ∃ t, s.callbackStep = some t := by
  cases last with
  | exchange | write | reset | post =>
      simp only [State.callbackStep, hcallback]
      exact ⟨_, rfl⟩
  | ended => cases hopen

/-- The task waits for no one but a callback that runs. -/
theorem worker_enabled {last : Finish Endpoint} (hworker : s.worker = .finish last)
    (hopen : last.isEnded = false) :
    (∃ t, s.workerStep = some t) ∨ ∃ t, s.callbackStep = some t := by
  cases last with
  | exchange | write | post =>
      simp only [State.workerStep, hworker]
      exact .inl ⟨_, rfl⟩
  | reset =>
      cases hidle : s.callback.idle with
      | true =>
          left
          simp only [State.workerStep, hworker, hidle, ↓reduceIte]
          exact ⟨_, rfl⟩
      | false =>
          right
          cases hcallback : s.callback with
          | running other =>
              rw [hcallback] at hidle
              exact callback_enabled hcallback hidle
          | none | registered | removed =>
              rw [hcallback] at hidle
              cases hidle
  | ended => cases hopen

/-- Until the continuation is posted there is a step to take. -/
theorem Live.step (hs : Live convert s) : 0 < s.shared.posts ∨
    ∃ a t, Continues a ∧ step convert s a = some t := by
  cases hlive : s.suspend.isReturned with
  | false =>
      obtain ⟨t, ht⟩ := suspend_enabled hlive
      exact .inr ⟨.suspend true, t, rfl, ht⟩
  | true =>
      have hwork : (∃ t, s.workerStep = some t) ∨ (∃ t, s.callbackStep = some t) →
          ∃ a t, Continues a ∧ Resolver.step convert s a = some t := by
        rintro (⟨t, ht⟩ | ⟨t, ht⟩)
        · exact ⟨.worker, t, trivial, ht⟩
        · exact ⟨.callback, t, trivial, ht⟩
      cases hworker : s.worker with
      | none =>
          rcases hs.handed hlive with hsome | hposts
          · exact absurd hworker hsome
          · exact .inl hposts
      | lost => exact absurd hworker hs.taken
      | queued =>
          refine .inr ⟨.answer (.failed 0) 0, ?_⟩
          simp only [Resolver.step, hworker]
          exact ⟨_, trivial, rfl⟩
      | finish last =>
          cases hopen : last.isEnded with
          | false => exact .inr (hwork (worker_enabled hworker hopen))
          | true =>
              have hended : s.race.stage .worker = .ended := by
                change s.worker.stage = .ended
                rw [hworker]
                cases last with
                | ended => rfl
                | exchange | write | reset | post => cases hopen
              rcases hs.race.settles hended with hone | ⟨p, _, hwon⟩
              · change s.shared.posts = 1 at hone
                exact .inl (by omega)
              · right
                cases p with
                | suspend =>
                    exfalso
                    change s.suspend.stage.won = true at hwon
                    cases hsuspend : s.suspend with
                    | returned =>
                        rw [hsuspend] at hwon
                        cases hwon
                    | _ =>
                        rw [hsuspend] at hlive
                        cases hlive
                | callback =>
                    change s.callback.stage.won = true at hwon
                    cases hcallback : s.callback with
                    | running other =>
                        rw [hcallback] at hwon
                        exact hwork
                          (.inr (callback_enabled hcallback (Finish.open_of_won hwon)))
                    | none | registered | removed =>
                        rw [hcallback] at hwon
                        cases hwon
                | worker =>
                    change s.worker.stage.won = true at hwon
                    change s.worker.stage = .ended at hended
                    rw [hended] at hwon
                    cases hwon

/-- Where the pool takes the task, the continuation is posted once, whichever way the
parties take their steps. -/
theorem resolve_ends (convert : Info → Option Endpoint) (hasToken : Bool)
    (s : State Info Endpoint) (hs : (system convert hasToken).Reachable s)
    (htaken : s.worker ≠ .lost) :
    (system convert hasToken).Inevitable Continues (fun t => t.shared.posts = 1) s := by
  have hlive : Live convert s :=
    ⟨Order.reachable hs, race_inv hs, Handed.reachable hs, htaken⟩
  refine .of_work (Live convert) State.work ?_ ?_ ?_ hlive
  · intro s a t hs hcontinues hstep
    exact hs.preserved hcontinues hstep
  · intro s hs
    rcases hs.step with hposts | ⟨a, t, hcontinues, hstep⟩
    · have hone := hs.race.published.1
      change s.shared.posts ≤ 1 at hone
      exact .inl (by omega)
    · exact .inr ⟨a, t, hcontinues, hstep⟩
  · intro s a t hs hcontinues hstep
    exact step_work hs.order hcontinues hstep

theorem resolve_ends_start : (system evens true).Inevitable Continues
    (fun t => t.shared.posts = 1) (system evens true).start :=
  resolve_ends evens true _ .start (by
    intro h
    cases h)

end Resolver

end Iocoro
