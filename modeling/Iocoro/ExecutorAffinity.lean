/-
Executors and nested awaitables.  Every spawned coroutine is the root of a chain
of coroutines that await one another; a promise is bound to an executor, and an
executor runs what is posted to it in any order, with itself as the current one.
-/
import Mathlib.Data.List.Basic
import Iocoro.TransitionSystem

namespace Iocoro

universe u

namespace ExecutorAffinity

open TransitionSystem

/-- What the innermost coroutine of a chain does: its body runs on `current`, its
resumption is posted, it waits for an operation that will post it to `target`,
or the root has ended.  `afterChild` says that the body goes on (or will go on)
after a `co_await` of another coroutine. -/
inductive Control (E : Type u) where
  | running (current : E) (afterChild : Bool)
  | posted (target : E) (afterChild : Bool)
  | waiting (target : E)
  | ended
deriving DecidableEq, Repr

/-- The bindings `ex_` of the promises, the innermost first. -/
structure Chain (E : Type u) where
  bindings : List E
  control : Control E
deriving DecidableEq, Repr

/-- What the body of a coroutine does, and the executor that runs its posted
resumption.  A child that is awaited may have been given an executor by
`bind_executor`; `suspends` says that a leaf operation is not complete at once. -/
inductive Act (E : Type u) where
  | call (bound : Option E)
  | switchTo (target : E)
  | on (target : E)
  | leaf (suspends : Bool)
  | complete
  | finish
  | run
deriving DecidableEq, Repr

structure State (E : Type u) where
  chains : List (Chain E) := []
deriving DecidableEq, Repr

inductive Action (E : Type u) where
  | coSpawn (executor : E)
  | act (chain : Nat) (act : Act E)
deriving DecidableEq, Repr

variable {E : Type u} [DecidableEq E]

/-- `await_ready` and `await_suspend` of `switch_to` and `on`: the resumption is
posted unless the target is the current executor. -/
def hop (current target : E) : Control E :=
  if current = target then .running current false else .posted target false

/-- `final_awaiter::await_suspend` with a continuation: it is resumed in place
where the current executor is that of the child, else it is posted there. -/
def resumeContinuation (current child : E) : Control E :=
  if current = child then .running current true else .posted child true

/-- `inherit_executor`. -/
def inheritExecutor (bound : Option E) (parent : E) : E := bound.getD parent

def Chain.step (c : Chain E) (act : Act E) : Option (Chain E) :=
  match act, c.control, c.bindings with
  | .call bound, .running current _, parent :: rest =>
      some {
        bindings := inheritExecutor bound parent :: parent :: rest
        control := .running current false }
  | .switchTo target, .running current _, _ :: rest =>
      some { bindings := target :: rest, control := hop current target }
  | .on target, .running current _, bindings =>
      some { bindings, control := hop current target }
  | .leaf suspends, .running current _, own :: rest =>
      some {
        bindings := own :: rest
        control := if suspends then .waiting own else .running current false }
  | .complete, .waiting target, bindings =>
      some { bindings, control := .posted target false }
  | .finish, .running current _, child :: parent :: rest =>
      some {
        bindings := parent :: rest
        control := resumeContinuation current child }
  | .finish, .running _ _, [_] => some { bindings := [], control := .ended }
  | .run, .posted target afterChild, bindings =>
      some { bindings, control := .running target afterChild }
  | _, _, _ => none

def step (s : State E) : Action E → Option (State E)
  | .coSpawn executor =>
      some { chains := s.chains ++
        [{ bindings := [executor], control := .posted executor false }] }
  | .act i act =>
      s.chains[i]?.bind fun c =>
        (c.step act).map fun d => { chains := s.chains.set i d }

def system (E : Type u) [DecidableEq E] : TransitionSystem (State E) (Action E) where
  start := {}
  step := step

/-- A body that goes on after a `co_await` of another coroutine runs on the
executor its own promise is bound to. -/
def Chain.Affine (c : Chain E) : Prop :=
  ∀ current, c.control = .running current true → c.bindings.head? = some current

/-- A coroutine that ends is bound to the executor of the coroutine that awaits
it. -/
def Chain.endsAtHome (c : Chain E) : Act E → Bool
  | .finish =>
      match c.bindings with
      | child :: parent :: _ => child = parent
      | _ => true
  | _ => true

def endsAtHome (s : State E) : Action E → Bool
  | .act i act => s.chains[i]?.all fun c => c.endsAtHome act
  | _ => true

/-! ### Invariant -/

/-- A continuation is posted where its own promise is bound. -/
structure ChainOk (c : Chain E) : Prop where
  affine : c.Affine
  posted : ∀ target, c.control = .posted target true →
    c.bindings.head? = some target

omit [DecidableEq E] in
theorem chainOk_of_control {c : Chain E}
    (hrunning : ∀ current, c.control ≠ .running current true)
    (hposted : ∀ target, c.control ≠ .posted target true) : ChainOk c :=
  ⟨fun current h => absurd h (hrunning current),
    fun target h => absurd h (hposted target)⟩

theorem chainOk_hop (bindings : List E) (current target : E) :
    ChainOk { bindings, control := hop current target } := by
  apply chainOk_of_control
  · intro other
    simp only [hop]
    split <;> simp
  · intro other
    simp only [hop]
    split <;> simp

/-- The continuation of a child that ends at home. -/
theorem chainOk_resume (rest : List E) (current parent : E) :
    ChainOk {
      bindings := parent :: rest
      control := resumeContinuation current parent } := by
  constructor
  · intro other h
    simp only [resumeContinuation] at h
    split at h
    · next heq =>
        simp only [Control.running.injEq, and_true] at h
        rw [List.head?_cons, ← h, heq]
    · simp at h
  · intro other h
    simp only [resumeContinuation] at h
    split at h
    · simp at h
    · simp only [Control.posted.injEq, and_true] at h
      rw [List.head?_cons, h]

theorem Chain.step_ok {c d : Chain E} {act : Act E} (hc : ChainOk c)
    (hhome : c.endsAtHome act = true) (hstep : c.step act = some d) :
    ChainOk d := by
  unfold Chain.step at hstep
  split at hstep
  · obtain rfl := Option.some.inj hstep
    exact chainOk_of_control (by simp) (by simp)
  · obtain rfl := Option.some.inj hstep
    exact chainOk_hop _ _ _
  · obtain rfl := Option.some.inj hstep
    exact chainOk_hop _ _ _
  · obtain rfl := Option.some.inj hstep
    apply chainOk_of_control
    · intro other
      simp only
      split <;> simp
    · intro other
      simp only
      split <;> simp
  · obtain rfl := Option.some.inj hstep
    exact chainOk_of_control (by simp) (by simp)
  · next hbindings =>
      obtain rfl := Option.some.inj hstep
      simp only [Chain.endsAtHome, hbindings, decide_eq_true_eq] at hhome
      rw [hhome]
      exact chainOk_resume _ _ _
  · obtain rfl := Option.some.inj hstep
    exact chainOk_of_control (by simp) (by simp)
  · next hcontrol =>
      obtain rfl := Option.some.inj hstep
      constructor
      · intro current h
        simp only [Control.running.injEq] at h
        obtain ⟨rfl, rfl⟩ := h
        exact hc.posted _ hcontrol
      · simp
  · simp at hstep

def Inv (s : State E) : Prop := ∀ c ∈ s.chains, ChainOk c

theorem step_inv {s t : State E} {a : Action E} (hs : Inv s)
    (hhome : endsAtHome s a = true) (hstep : step s a = some t) : Inv t := by
  cases a with
  | coSpawn executor =>
      obtain rfl := Option.some.inj hstep
      intro c hc
      rcases List.mem_append.mp hc with hold | hnew
      · exact hs c hold
      · rw [List.mem_singleton.mp hnew]
        exact chainOk_of_control (by simp) (by simp)
  | act i act =>
      obtain ⟨c, hc, hnext⟩ := Option.bind_eq_some_iff.mp hstep
      obtain ⟨d, hd, rfl⟩ := Option.map_eq_some_iff.mp hnext
      have hok := hs c (List.mem_of_getElem? hc)
      simp only [endsAtHome, hc, Option.all_some] at hhome
      intro other hother
      rcases List.mem_or_eq_of_mem_set hother with hold | rfl
      · exact hs other hold
      · exact Chain.step_ok hok hhome hd

/-! ### Exactness -/

theorem step_act {s : State E} {i : Nat} {c d : Chain E} {act : Act E}
    (hc : s.chains[i]? = some c) (hstep : c.step act = some d) :
    step s (.act i act) = some { chains := s.chains.set i d } := by
  rw [step, hc, Option.bind_some, hstep, Option.map_some]

/-- Where a child ends away from home, its parent goes on there. -/
theorem exists_not_affine {s : State E} {i : Nat} {c : Chain E}
    (hc : s.chains[i]? = some c) {current child parent : E} {afterChild : Bool}
    {rest : List E} (hcontrol : c.control = .running current afterChild)
    (hbindings : c.bindings = child :: parent :: rest)
    (haway : child ≠ parent) :
    ∃ word t, (system E).exec s word = some t ∧
      ∃ d ∈ t.chains, ¬ d.Affine := by
  have hi : i < s.chains.length := (List.getElem?_eq_some_iff.mp hc).1
  have hend : c.step .finish = some {
      bindings := parent :: rest
      control := resumeContinuation current child } := by
    simp [Chain.step, hcontrol, hbindings]
  have hfinish := step_act hc hend
  have haffine : ¬ Chain.Affine {
      bindings := parent :: rest, control := .running child true } := by
    intro h
    have hhead := h child rfl
    rw [List.head?_cons, Option.some.injEq] at hhead
    exact haway hhead.symm
  by_cases hcurrent : current = child
  · rw [resumeContinuation, if_pos hcurrent, hcurrent] at hfinish
    refine ⟨[.act i .finish], _, ?_, _, List.mem_set hi _, haffine⟩
    simp only [TransitionSystem.exec, system, hfinish, Option.bind_some]
  · rw [resumeContinuation, if_neg hcurrent] at hfinish
    have hposted : (s.chains.set i
        ⟨parent :: rest, .posted child true⟩)[i]? = some _ :=
      List.getElem?_set_self hi
    have hrun : step _ (.act i .run) = _ :=
      step_act (s := { chains := _ }) hposted rfl
    refine ⟨[.act i .finish, .act i .run], _, ?_, _, List.mem_set hi _, haffine⟩
    simp only [TransitionSystem.exec, system, hfinish, Option.bind_some, hrun,
      List.set_set]

theorem running_of_finish {c : Chain E}
    (hstep : (c.step .finish).isSome = true) :
    ∃ current afterChild, c.control = .running current afterChild := by
  cases hcontrol : c.control with
  | running current afterChild => exact ⟨current, afterChild, rfl⟩
  | posted target afterChild => simp [Chain.step, hcontrol] at hstep
  | waiting target => simp [Chain.step, hcontrol] at hstep
  | ended => simp [Chain.step, hcontrol] at hstep

theorem bound_away {c : Chain E} (haway : c.endsAtHome .finish = false) :
    ∃ child parent rest, c.bindings = child :: parent :: rest ∧
      child ≠ parent := by
  match hbindings : c.bindings with
  | [] => simp [Chain.endsAtHome, hbindings] at haway
  | [root] => simp [Chain.endsAtHome, hbindings] at haway
  | child :: parent :: rest =>
      simp only [Chain.endsAtHome, hbindings, decide_eq_false_iff_not] at haway
      exact ⟨child, parent, rest, rfl, haway⟩

/-- In every run in which awaited coroutines end at home, every coroutine goes on
after its `co_await` on its own executor; and where one is about to end away
from home, the coroutine that awaits it will not. -/
theorem affine_iff_endsAtHome :
    (∀ s : State E,
      (system E).ReachableUnder (fun s a => endsAtHome s a = true) s →
      ∀ c ∈ s.chains, c.Affine) ∧
    (∀ (s : State E) (i : Nat) (c : Chain E),
      s.chains[i]? = some c → (c.step .finish).isSome = true →
      endsAtHome s (.act i .finish) = false →
      ∃ word t, (system E).exec s word = some t ∧
        ∃ d ∈ t.chains, ¬ d.Affine) := by
  constructor
  · intro s hs c hc
    have hinv : Inv s := hs.invariant (by simp [Inv, system])
      (fun _ _ _ hinv hhome hstep => step_inv hinv hhome hstep)
    exact (hinv c hc).affine
  · intro s i c hc hstep haway
    simp only [endsAtHome, hc, Option.all_some] at haway
    obtain ⟨current, afterChild, hcontrol⟩ := running_of_finish hstep
    obtain ⟨child, parent, rest, hbindings, hne⟩ := bound_away haway
    exact exists_not_affine hc hcontrol hbindings hne

/-- A child that inherits its executor, leaves it with `switch_to` and goes back
ends at home: its parent goes on where it is bound. -/
theorem affine_iff_endsAtHome_switchedBack :
    ∃ s, (system Nat).ReachableUnder (fun s a => endsAtHome s a = true) s ∧
      s.chains = [⟨[0], .running 0 true⟩] ∧ ∀ c ∈ s.chains, c.Affine := by
  obtain ⟨s, hs, hp⟩ := exists_reachableUnder_of_execUnder (system Nat)
    (fun s a => endsAtHome s a = true)
    [.coSpawn 0, .act 0 .run, .act 0 (.call none), .act 0 (.switchTo 1),
      .act 0 .run, .act 0 (.switchTo 0), .act 0 .run, .act 0 .finish]
    (fun s => s.chains = [⟨[0], .running 0 true⟩]) (by decide)
  exact ⟨s, hs, of_decide_eq_true hp, affine_iff_endsAtHome.1 s hs⟩

/-- A parent on executor 0 awaits a child that `bind_executor` gave executor 1;
the child ends on executor 0, and the parent is posted to executor 1. -/
theorem not_affine_boundElsewhere :
    ¬ ∀ s, (system Nat).Reachable s → ∀ c ∈ s.chains, c.Affine := by
  intro h
  obtain ⟨s, hs, hp⟩ := exists_reachable_of_exec (system Nat)
    [.coSpawn 0, .act 0 .run, .act 0 (.call (some 1)), .act 0 .finish,
      .act 0 .run]
    (fun s => s.chains = [⟨[0], .running 1 true⟩]) (by decide)
  have hchains : s.chains = [⟨[0], .running 1 true⟩] := of_decide_eq_true hp
  have haffine := h s hs _ (hchains ▸ List.mem_singleton_self _)
  simpa using haffine 1 rfl

end ExecutorAffinity

end Iocoro
