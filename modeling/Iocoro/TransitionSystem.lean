/-
Transition systems given by a partial step function.  Reachability is taken
along the runs whose steps all meet a side condition; the condition that is
always met gives plain reachability.  Words of actions can be replayed, so a
concrete run is a certificate of reachability.
-/
import Mathlib.Logic.Basic

universe u v

/-- A start state and a step function; `none` is an action that is not enabled
in the given state. -/
structure TransitionSystem (S : Type u) (A : Type v) where
  start : S
  step : S → A → Option S

namespace TransitionSystem

variable {S : Type u} {A : Type v}

/-- The states reached from the start by steps that all meet `allowed`. -/
inductive ReachableUnder (M : TransitionSystem S A) (allowed : S → A → Prop) :
    S → Prop
  | start : ReachableUnder M allowed M.start
  | step {s t : S} {a : A} (hs : ReachableUnder M allowed s)
      (hallowed : allowed s a) (hstep : M.step s a = some t) :
      ReachableUnder M allowed t

/-- The states reached by any run at all. -/
def Reachable (M : TransitionSystem S A) (s : S) : Prop :=
  M.ReachableUnder (fun _ _ => True) s

/-- The invariant rule: what holds at the start and is kept by every allowed
step holds in every state an allowed run reaches. -/
theorem ReachableUnder.invariant {M : TransitionSystem S A}
    {allowed : S → A → Prop} {Inv : S → Prop} (hstart : Inv M.start)
    (hkeep : ∀ s a t, Inv s → allowed s a → M.step s a = some t → Inv t)
    {s : S} (hs : M.ReachableUnder allowed s) : Inv s := by
  induction hs with
  | start => exact hstart
  | step _ hallowed hstep ih => exact hkeep _ _ _ ih hallowed hstep

theorem Reachable.invariant {M : TransitionSystem S A} {Inv : S → Prop}
    (hstart : Inv M.start)
    (hkeep : ∀ s a t, Inv s → M.step s a = some t → Inv t)
    {s : S} (hs : M.Reachable s) : Inv s :=
  ReachableUnder.invariant hstart
    (fun s a t hinv _ hstep => hkeep s a t hinv hstep) hs

theorem ReachableUnder.reachable {M : TransitionSystem S A} {allowed : S → A → Prop}
    {s : S} (hs : M.ReachableUnder allowed s) : M.Reachable s := by
  induction hs with
  | start => exact .start
  | step _ _ hstep ih => exact .step ih trivial hstep

/-- The refinement rule: where every step of `M` is under `f` an allowed step
of `N` or no step at all, `f` sends allowed runs of `M` to allowed runs of
`N`. -/
theorem ReachableUnder.refine {S' : Type u} {A' : Type v}
    {M : TransitionSystem S A} {allowed : S → A → Prop}
    (N : TransitionSystem S' A') (allowed' : S' → A' → Prop) (f : S → S')
    (hstart : f M.start = N.start)
    (hsim : ∀ s a t, M.ReachableUnder allowed s → allowed s a →
      M.step s a = some t →
      f t = f s ∨ ∃ b, allowed' (f s) b ∧ N.step (f s) b = some (f t))
    {s : S} (hs : M.ReachableUnder allowed s) :
    N.ReachableUnder allowed' (f s) := by
  induction hs with
  | start =>
      rw [hstart]
      exact .start
  | step hs hallowed hstep ih =>
      rcases hsim _ _ _ hs hallowed hstep with hstutter | ⟨b, hb, hbstep⟩
      · rw [hstutter]
        exact ih
      · exact .step ih hb hbstep

/-- The system with a count of the steps that pass a test. -/
def counted (M : TransitionSystem S A) (p : A → Bool) : TransitionSystem (S × Nat) A where
  start := (M.start, 0)
  step s a := (M.step s.1 a).map fun t => (t, s.2 + (p a).toNat)

theorem counted_step {M : TransitionSystem S A} {p : A → Bool} {s t : S × Nat} {a : A}
    (hstep : (M.counted p).step s a = some t) :
    M.step s.1 a = some t.1 ∧ t.2 = s.2 + (p a).toNat := by
  obtain ⟨next, hnext, rfl⟩ := Option.map_eq_some_iff.mp hstep
  exact ⟨hnext, rfl⟩

theorem counted_step_of {M : TransitionSystem S A} (p : A → Bool) {s t : S} {a : A}
    (hstep : M.step s a = some t) (k : Nat) :
    (M.counted p).step (s, k) a = some (t, k + (p a).toNat) := by
  change (M.step s a).map _ = _
  rw [hstep]
  rfl

/-- Whichever way the actions that meet `continues` are chosen, they come to an
end, and then `goal` holds. -/
inductive Inevitable (M : TransitionSystem S A) (continues : A → Prop)
    (goal : S → Prop) : S → Prop
  | intro {s : S}
      (hlive : goal s ∨ ∃ a t, continues a ∧ M.step s a = some t)
      (hnext : ∀ a t, continues a → M.step s a = some t →
        Inevitable M continues goal t) :
      Inevitable M continues goal s

/-- The rule for `Inevitable`: an invariant under which a step is possible until
the goal is met, and a measure that every step lowers. -/
theorem Inevitable.of_work {M : TransitionSystem S A} {continues : A → Prop}
    {goal : S → Prop} (Inv : S → Prop) (work : S → Nat)
    (hkeep : ∀ s a t, Inv s → continues a → M.step s a = some t → Inv t)
    (hlive : ∀ s, Inv s → goal s ∨ ∃ a t, continues a ∧ M.step s a = some t)
    (hwork : ∀ s a t, Inv s → continues a → M.step s a = some t →
      work t < work s)
    {s : S} (hs : Inv s) : M.Inevitable continues goal s := by
  induction hn : work s using Nat.strongRecOn generalizing s with
  | _ n ih =>
      refine .intro (hlive s hs) fun a t ha hstep => ?_
      exact ih (work t) (hn ▸ hwork s a t hs ha hstep)
        (hkeep s a t hs ha hstep) rfl

/-- Replay a word of actions, stopping where one is not enabled. -/
def exec (M : TransitionSystem S A) : S → List A → Option S
  | s, [] => some s
  | s, a :: word => (M.step s a).bind fun t => M.exec t word

/-- Replay a word of actions and check the side condition at every step. -/
def execUnder (M : TransitionSystem S A) (allowed : S → A → Prop)
    [∀ s a, Decidable (allowed s a)] : S → List A → Option S
  | s, [] => some s
  | s, a :: word =>
      if allowed s a then
        (M.step s a).bind fun t => M.execUnder allowed t word
      else none

theorem ReachableUnder.execUnder {M : TransitionSystem S A}
    {allowed : S → A → Prop} [∀ s a, Decidable (allowed s a)]
    {s t : S} {word : List A} (hs : M.ReachableUnder allowed s)
    (hword : M.execUnder allowed s word = some t) :
    M.ReachableUnder allowed t := by
  induction word generalizing s with
  | nil =>
      simp only [TransitionSystem.execUnder, Option.some.injEq] at hword
      exact hword ▸ hs
  | cons a word ih =>
      simp only [TransitionSystem.execUnder] at hword
      split at hword
      · next hallowed =>
          obtain ⟨next, hstep, hrest⟩ := Option.bind_eq_some_iff.mp hword
          exact ih (.step hs hallowed hstep) hrest
      · simp at hword

theorem Reachable.exec {M : TransitionSystem S A} {s t : S} {word : List A}
    (hs : M.Reachable s) (hword : M.exec s word = some t) : M.Reachable t := by
  induction word generalizing s with
  | nil =>
      simp only [TransitionSystem.exec, Option.some.injEq] at hword
      exact hword ▸ hs
  | cons a word ih =>
      obtain ⟨next, hstep, hrest⟩ := Option.bind_eq_some_iff.mp hword
      exact ih (.step hs trivial hstep) hrest

/-- Where each step of `M` is under `f` the step of `N` with the same action, so is each
run, also one that is stuck. -/
theorem exec_map {S' : Type u} {M : TransitionSystem S A} {N : TransitionSystem S' A}
    (f : S → S') (Inv : S → Prop)
    (hstep : ∀ s a, Inv s → (M.step s a).map f = N.step (f s) a ∧
      ∀ t, M.step s a = some t → Inv t)
    {s : S} (hs : Inv s) (word : List A) : (M.exec s word).map f = N.exec (f s) word := by
  induction word generalizing s with
  | nil => rfl
  | cons a word ih =>
      obtain ⟨hmap, hkeep⟩ := hstep s a hs
      rw [exec, exec, ← hmap]
      cases hnext : M.step s a with
      | none => rfl
      | some t => exact ih (hkeep t hnext)

/-- A replayed word that ends in a state passing the check `p` exhibits a
reachable state of that kind. -/
theorem exists_reachable_of_exec (M : TransitionSystem S A) (word : List A)
    (p : S → Bool) (hword : (M.exec M.start word).any p = true) :
    ∃ s, M.Reachable s ∧ p s = true := by
  cases hexec : M.exec M.start word with
  | none => simp [hexec] at hword
  | some s =>
      rw [hexec] at hword
      exact ⟨s, Reachable.exec .start hexec, hword⟩

/-- The same for a run whose steps all meet a side condition. -/
theorem exists_reachableUnder_of_execUnder (M : TransitionSystem S A)
    (allowed : S → A → Prop) [∀ s a, Decidable (allowed s a)]
    (word : List A) (p : S → Bool)
    (hword : (M.execUnder allowed M.start word).any p = true) :
    ∃ s, M.ReachableUnder allowed s ∧ p s = true := by
  cases hexec : M.execUnder allowed M.start word with
  | none => simp [hexec] at hword
  | some s =>
      rw [hexec] at hword
      exact ⟨s, ReachableUnder.execUnder .start hexec, hword⟩

end TransitionSystem
