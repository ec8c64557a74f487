/-
`work_guard`: tokens that are made, moved, reset and destroyed over the counters of any
number of executors.  A counter has the number of tokens that own work, and the executor
is woken up with the last one.
-/
import Mathlib.Logic.Function.Basic
import Iocoro.Inventory
import Iocoro.TransitionSystem

universe u

namespace Iocoro

namespace WorkGuard

/-- A token; its executor stays behind when the work is given away. -/
structure Guard (E : Type u) where
  executor : E
  owns : Bool
deriving DecidableEq, Repr

variable {E : Type u}

/-- What is left of a token after a move or a reset. -/
def Guard.given (g : Guard E) : Guard E := { g with owns := false }

/-- The work that a place of the table holds; a destroyed token is no more. -/
def work : Option (Guard E) → List E
  | some g => if g.owns = true then [g.executor] else []
  | none => []

@[simp] theorem work_given (g : Guard E) : work (some g.given) = [] := rfl

@[simp] theorem work_none : work (none : Option (Guard E)) = [] := rfl

/-- `count` and `wakeups` of every executor; `failed` is the check in
`work_guard_counter::remove`. -/
structure State (E : Type u) where
  count : E → Nat := fun _ => 0
  wakeups : E → Nat := fun _ => 0
  failed : Bool := false
  guards : List (Option (Guard E)) := []

inductive Action (E : Type u) where
  | make (e : E)
  | moveConstruct (i : Nat)
  | moveAssign (i other : Nat)
  | reset (i : Nat)
  | destroy (i : Nat)
deriving DecidableEq, Repr

variable [DecidableEq E]

def State.addWorkGuard (s : State E) (e : E) : State E :=
  { s with count := Function.update s.count e (s.count e + 1) }

/-- The executor is woken up when the old count was 1. -/
def State.removeWorkGuard (s : State E) (e : E) : State E :=
  match s.count e with
  | 0 => { s with failed := true }
  | old + 1 => { s with
      count := Function.update s.count e old
      wakeups := if old = 0 then Function.update s.wakeups e (s.wakeups e + 1)
        else s.wakeups }

/-- `reset()` as far as the executor goes. -/
def State.release (s : State E) (g : Guard E) : State E :=
  if g.owns = true then s.removeWorkGuard g.executor else s

def step (s : State E) : Action E → Option (State E)
  | .make e => some { s.addWorkGuard e with guards := s.guards ++ [some ⟨e, true⟩] }
  | .moveConstruct i =>
      match s.guards[i]? with
      | some (some g) => some { s with guards := s.guards.set i (some g.given) ++ [some g] }
      | _ => none
  | .moveAssign i j =>
      match s.guards[i]?, s.guards[j]? with
      | some (some g), some (some other) =>
          if i = j then some s
          else some { s.release g with
            guards := (s.guards.set i (some other)).set j (some other.given) }
      | _, _ => none
  | .reset i =>
      match s.guards[i]? with
      | some (some g) => some { s.release g with guards := s.guards.set i (some g.given) }
      | _ => none
  | .destroy i =>
      match s.guards[i]? with
      | some (some g) => some { s.release g with guards := s.guards.set i none }
      | _ => none

def system (E : Type u) [DecidableEq E] : TransitionSystem (State E) (Action E) where
  start := {}
  step := step

/-- A counter has the tokens that own work of its executor, and was never taken below
zero. -/
structure Balanced (s : State E) : Prop where
  unfailed : s.failed = false
  counts : ∀ e, s.count e = Inventory.held work s.guards e

/-- Executors are woken up exactly by the steps that take their last token. -/
def Told (s t : State E) : Prop :=
  ∀ e, t.wakeups e = s.wakeups e + if s.count e ≠ 0 ∧ t.count e = 0 then 1 else 0

variable {s t : State E}

omit [DecidableEq E] in
theorem told_of_counts (hcount : ∀ e, s.count e ≠ 0 → t.count e ≠ 0)
    (hwakeups : t.wakeups = s.wakeups) : Told s t := by
  intro e
  rw [hwakeups, if_neg fun hlast => hcount e hlast.1 hlast.2, Nat.add_zero]

theorem removeWorkGuard_count {e : E} (hpos : 0 < s.count e) (e' : E) :
    (s.removeWorkGuard e).count e' + [e].count e' = s.count e' := by
  obtain ⟨old, hold⟩ := Nat.exists_eq_add_of_lt hpos
  rw [Nat.zero_add] at hold
  simp only [State.removeWorkGuard, hold]
  by_cases he : e' = e
  · subst he
    rw [Function.update_self, List.count_singleton_self, hold]
  · rw [Function.update_of_ne he, List.count_singleton, if_neg (by simpa using Ne.symm he),
      Nat.add_zero]

theorem removeWorkGuard_failed {e : E} (hpos : 0 < s.count e) :
    (s.removeWorkGuard e).failed = s.failed := by
  obtain ⟨old, hold⟩ := Nat.exists_eq_add_of_lt hpos
  simp only [State.removeWorkGuard, hold]

theorem removeWorkGuard_told {e : E} (hpos : 0 < s.count e) :
    Told s (s.removeWorkGuard e) := by
  intro e'
  have hcount := removeWorkGuard_count hpos e'
  obtain ⟨old, hold⟩ := Nat.exists_eq_add_of_lt hpos
  rw [Nat.zero_add] at hold
  by_cases he : e' = e
  · subst he
    rw [List.count_singleton_self] at hcount
    have hleft : (s.removeWorkGuard e').count e' = old := by omega
    rw [hleft]
    simp only [State.removeWorkGuard, hold]
    by_cases hlast : old = 0
    · rw [if_pos hlast, Function.update_self, if_pos ⟨Nat.succ_ne_zero _, hlast⟩]
    · rw [if_neg hlast, if_neg fun hboth => hlast hboth.2, Nat.add_zero]
  · rw [List.count_singleton, if_neg (by simpa using Ne.symm he), Nat.add_zero] at hcount
    rw [hcount, if_neg fun hboth => hboth.1 hboth.2, Nat.add_zero]
    simp only [State.removeWorkGuard, hold]
    split
    · rw [Function.update_of_ne he]
    · rfl

/-- What `reset` does to the executor when its token leaves the table. -/
theorem Balanced.release (hs : Balanced s) {i : Nat} {g : Guard E}
    (hi : s.guards[i]? = some (some g)) {guards : List (Option (Guard E))}
    (hleft : ∀ e, Inventory.held work guards e + (work (some g)).count e =
      Inventory.held work s.guards e) :
    Balanced { s.release g with guards } ∧ Told s { s.release g with guards } := by
  by_cases howns : g.owns = true
  · have hwork : work (some g) = [g.executor] := if_pos howns
    have hpos : 0 < s.count g.executor := by
      rw [hs.counts]
      exact Inventory.held_pos work hi (by rw [hwork]; exact List.mem_singleton_self _)
    rw [State.release, if_pos howns]
    refine ⟨⟨(removeWorkGuard_failed hpos).trans hs.unfailed, fun e => ?_⟩,
      removeWorkGuard_told hpos⟩
    have hcount := removeWorkGuard_count hpos e
    have hheld := hleft e
    rw [hwork] at hheld
    rw [hs.counts] at hcount
    change (s.removeWorkGuard g.executor).count e = Inventory.held work guards e
    omega
  · have hwork : work (some g) = [] := if_neg howns
    rw [State.release, if_neg howns]
    refine ⟨⟨hs.unfailed, fun e => ?_⟩, told_of_counts (fun _ hcount => hcount) rfl⟩
    have hheld := hleft e
    rw [hwork, List.count_nil, Nat.add_zero] at hheld
    exact (hs.counts e).trans hheld.symm

theorem step_balanced {a : Action E} (hs : Balanced s) (hstep : step s a = some t) :
    Balanced t ∧ Told s t := by
  cases a with
  | make e =>
      obtain rfl := Option.some.inj hstep
      refine ⟨⟨hs.unfailed, fun e' => ?_⟩, told_of_counts (fun e' hcount => ?_) rfl⟩
      · change Function.update s.count e (s.count e + 1) e' = _
        rw [Inventory.held_append, Inventory.held_cons, Inventory.held_nil, ← hs.counts]
        change _ = s.count e' + ([e].count e' + 0)
        by_cases he : e' = e
        · subst he
          rw [Function.update_self, List.count_singleton_self]
        · rw [Function.update_of_ne he, List.count_singleton,
            if_neg (by simpa using Ne.symm he)]
          rfl
      · change Function.update s.count e (s.count e + 1) e' ≠ 0
        by_cases he : e' = e
        · subst he
          rw [Function.update_self]
          exact Nat.succ_ne_zero _
        · rw [Function.update_of_ne he]
          exact hcount
  | moveConstruct i =>
      simp only [step] at hstep
      split at hstep
      · next g hi =>
          obtain rfl := Option.some.inj hstep
          refine ⟨⟨hs.unfailed, fun e => ?_⟩, told_of_counts (fun _ hcount => hcount) rfl⟩
          have hset := Inventory.held_set_of_getElem? work hi (some g.given) e
          rw [work_given, List.count_nil, Nat.add_zero] at hset
          rw [Inventory.held_append, Inventory.held_cons, Inventory.held_nil, Nat.add_zero,
            hset]
          exact hs.counts e
      · cases hstep
  | moveAssign i j =>
      simp only [step] at hstep
      split at hstep
      · next g other hi hj =>
          split at hstep
          · obtain rfl := Option.some.inj hstep
            exact ⟨hs, told_of_counts (fun _ hcount => hcount) rfl⟩
          · next hij =>
              obtain rfl := Option.some.inj hstep
              refine hs.release hi fun e => ?_
              have htaken := Inventory.held_set_of_getElem? work hi (some other) e
              have hj' : (s.guards.set i (some other))[j]? = some (some other) := by
                rw [List.getElem?_set_ne hij]
                exact hj
              have hgiven := Inventory.held_set_of_getElem? work hj' (some other.given) e
              rw [work_given, List.count_nil, Nat.add_zero] at hgiven
              omega
      · cases hstep
  | reset i =>
      simp only [step] at hstep
      split at hstep
      · next g hi =>
          obtain rfl := Option.some.inj hstep
          exact hs.release hi (Inventory.held_set_of_getElem? work hi (some g.given))
      · cases hstep
  | destroy i =>
      simp only [step] at hstep
      split at hstep
      · next g hi =>
          obtain rfl := Option.some.inj hstep
          exact hs.release hi (Inventory.held_set_of_getElem? work hi none)
      · cases hstep

theorem balanced_of_reachable (hs : (system E).Reachable s) : Balanced s := by
  have hstart : Balanced (system E).start := ⟨rfl, fun _ => rfl⟩
  exact hs.invariant hstart fun _ _ _ hinv hstep => (step_balanced hinv hstep).1

/-- In every run the counters have the tokens that own work, so that an executor has work
exactly while a token of it owns some; the step that takes its last token wakes it up, and
no other does. -/
theorem guards_balance (hs : (system E).Reachable s) :
    Balanced s ∧ (∀ e, s.count e = 0 ↔ ∀ g ∈ s.guards, e ∉ work g) ∧
      ∀ a t, step s a = some t → Told s t := by
  have hbalanced := balanced_of_reachable hs
  refine ⟨hbalanced, fun e => ?_, fun a t hstep => (step_balanced hbalanced hstep).2⟩
  rw [hbalanced.counts, Inventory.held, List.count_eq_zero, List.mem_flatMap]
  constructor
  · exact fun hnone g hg hwork => hnone ⟨g, hg, hwork⟩
  · rintro hnone ⟨g, hg, hwork⟩
    exact hnone g hg hwork

/-- A token is moved on, the empty one is destroyed, and the other one is reset. -/
def handedOn : List (Action Nat) :=
  [.make 7, .moveConstruct 0, .destroy 0, .reset 1]

theorem guards_balance_handedOn :
    ∃ s : State Nat, (s.count 7 = 0 ∧ s.wakeups 7 = 1) ∧ Balanced s ∧
      (∀ e, s.count e = 0 ↔ ∀ g ∈ s.guards, e ∉ work g) ∧
      ∀ a t, step s a = some t → Told s t := by
  obtain ⟨s, hs, hend⟩ := TransitionSystem.exists_reachable_of_exec (system Nat) handedOn
    (fun s => decide (s.count 7 = 0 ∧ s.wakeups 7 = 1)) (by decide)
  exact ⟨s, of_decide_eq_true hend, guards_balance hs⟩

end WorkGuard

end Iocoro
