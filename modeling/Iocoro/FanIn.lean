/-
`when_state_base` in counting mode: any number of runners count down in an atomic
counter, and one awaiter leaves its address in an atomic word.  Each load and each
exchange is a step of its own; `WhenAll` models the same meeting with the loops of the
runners in one step.
-/
import Mathlib.Algebra.BigOperators.Ring.Finset
import Iocoro.WhenAll

universe u v

namespace Finset

/-- Updating a family at one index changes how many of its members satisfy a test by
what the old and the new member do. -/
theorem card_filter_update {ι : Type u} {α : Type v} [Fintype ι] [DecidableEq ι]
    (p : α → Bool) (f : ι → α) (i : ι) (a : α) :
    (univ.filter fun j => p (Function.update f i a j) = true).card + (p (f i)).toNat =
      (univ.filter fun j => p (f j) = true).card + (p a).toNat := by
  have hflag : ∀ b : Bool, (if b = true then 1 else 0) = b.toNat := fun b => by
    cases b <;> rfl
  have hcomp : ∀ j, (p (Function.update f i a j)).toNat =
      Function.update (fun j => (p (f j)).toNat) i (p a).toNat j := fun j => by
    by_cases hj : j = i
    · subst hj
      simp
    · simp [hj]
  simp only [card_filter, hflag, hcomp]
  have hnew := sum_update_of_mem (mem_univ i) (fun j => (p (f j)).toNat) (p a).toNat
  have hold := sum_eq_add_sum_sdiff_singleton_of_mem (mem_univ i)
    (fun j => (p (f j)).toNat)
  rw [hnew, hold]
  omega

end Finset

namespace Iocoro

namespace FanIn

open WhenAny (Waiter)

variable {n : BitVec 64} {Ex : Type u}

/-- Where a runner stands: before `try_complete`, in its loop with the value it read,
in `complete` before the load of `waiter_addr`, in the loop of `complete` with the
address it read, with the awaiter's address taken, and with the executor it read under
the lock.  `ended` keeps what `try_complete` returned. -/
inductive Runner (Ex : Type u) : Type u
  | ready
  | loaded (old : BitVec 64)
  | counted
  | publishing (addr : Waiter)
  | taken
  | resuming (ex : Option Ex)
  | ended (result : Bool)
  | terminated
  deriving DecidableEq

/-- Its decrement is still to come. -/
def Runner.counts : Runner Ex → Bool
  | .ready | .loaded _ => true
  | _ => false

/-- Its `try_complete` returned true. -/
def Runner.won : Runner Ex → Bool
  | .ready | .loaded _ | .ended false => false
  | _ => true

/-- The awaiter: the two looks at `is_done`, the store of the executor and the exchange
of `waiter_addr`; `passed` is `await_ready` returning true. -/
inductive Awaiter where
  | ready
  | suspend
  | storeEx
  | exchange
  | passed
  | returned (suspended : Bool)
  | terminated
deriving DecidableEq, Repr

def Awaiter.isSettled : Awaiter → Bool
  | .passed | .returned _ => true
  | _ => false

structure State (n : BitVec 64) (Ex : Type u) : Type u where
  remaining : BitVec 64 := n
  waiter : Waiter := .null
  ex : Option Ex := none
  runner : Fin n.toNat → Runner Ex := fun _ => .ready
  awaiter : Awaiter := .ready
  /-- The executors the awaiter was posted to. -/
  posted : List Ex := []

inductive Action (n : BitVec 64) where
  /-- The next step of a runner; a weak exchange may fail for no reason. -/
  | runner (i : Fin n.toNat) (spurious : Bool)
  | awaiter
deriving DecidableEq, Repr

def State.setRunner (s : State n Ex) (i : Fin n.toNat) (runner : Runner Ex) :
    State n Ex :=
  { s with runner := Function.update s.runner i runner }

/-- `try_complete` and, where it returned true, `complete`. -/
def runnerStep (s : State n Ex) (i : Fin n.toNat) (spurious : Bool) :
    Option (State n Ex) :=
  match s.runner i with
  | .ready => some (s.setRunner i (.loaded s.remaining))
  | .loaded old =>
      if old = 0 then some (s.setRunner i (.ended false))
      else if s.remaining = old ∧ spurious = false then
        some { s.setRunner i (if old = 1 then .counted else .ended false) with
          remaining := old - 1 }
      else some (s.setRunner i (.loaded s.remaining))
  | .counted => some (s.setRunner i (.publishing s.waiter))
  | .publishing addr =>
      if addr = .sentinel then some (s.setRunner i (.ended true))
      else if s.waiter = addr ∧ spurious = false then
        some { s.setRunner i (if addr = .null then .ended true else .taken) with
          waiter := .sentinel }
      else some (s.setRunner i (.publishing s.waiter))
  | .taken => some (s.setRunner i (.resuming s.ex))
  | .resuming ex =>
      match ex with
      | some ex => some { s.setRunner i (.ended true) with posted := s.posted ++ [ex] }
      | none => some (s.setRunner i .terminated)
  | .ended _ | .terminated => none

/-- `await_ready` and `await_suspend` of a coroutine that runs on `own`. -/
def awaiterStep (own : Ex) (s : State n Ex) : Option (State n Ex) :=
  match s.awaiter with
  | .ready => some { s with awaiter := if s.remaining = 0 then .passed else .suspend }
  | .suspend =>
      some { s with awaiter := if s.remaining = 0 then .returned false else .storeEx }
  | .storeEx => some { s with ex := some own, awaiter := .exchange }
  | .exchange =>
      match s.waiter with
      | .null => some { s with waiter := .parent, awaiter := .returned true }
      | .sentinel => some { s with awaiter := .returned false }
      | .parent => some { s with awaiter := .terminated }
  | .passed | .returned _ | .terminated => none

def step (own : Ex) (s : State n Ex) : Action n → Option (State n Ex)
  | .runner i spurious => runnerStep s i spurious
  | .awaiter => awaiterStep own s

def system (n : BitVec 64) (own : Ex) : TransitionSystem (State n Ex) (Action n) where
  start := {}
  step := step own

/-! ### Invariant -/

def State.uncounted (s : State n Ex) : Finset (Fin n.toNat) :=
  Finset.univ.filter fun i => (s.runner i).counts = true

/-- What the shared state is while a runner that has won stands at this place. -/
def WinnerOk (own : Ex) (s : State n Ex) : Runner Ex → Prop
  | .ready | .loaded _ | .ended false => True
  | .counted => s.waiter ≠ .sentinel ∧ s.posted = []
  | .publishing addr =>
      s.waiter ≠ .sentinel ∧ s.posted = [] ∧ (addr = .null ∨ addr = s.waiter)
  | .taken => s.waiter = .sentinel ∧ s.awaiter = .returned true ∧ s.posted = []
  | .resuming ex =>
      s.waiter = .sentinel ∧ s.awaiter = .returned true ∧ s.posted = [] ∧ ex = some own
  | .ended true =>
      s.waiter = .sentinel ∧
        s.posted = if s.awaiter = .returned true then [own] else []
  | .terminated => False

structure Inv (own : Ex) (s : State n Ex) : Prop where
  remaining : s.remaining.toNat = s.uncounted.card
  sole : ∀ i j, (s.runner i).won = true → (s.runner j).won = true → j = i
  winner : s.remaining = 0 ↔ ∃ i, (s.runner i).won = true
  shared : ∀ i, WinnerOk own s (s.runner i)
  loaded : ∀ i old, s.runner i = .loaded old → old ≠ 0
  early : s.remaining ≠ 0 → s.waiter ≠ .sentinel ∧ s.posted = []
  waiting : s.waiter = .parent → s.awaiter = .returned true
  asleep : s.awaiter = .returned true → s.waiter ≠ .null
  stored : s.awaiter = .exchange ∨ s.awaiter = .returned true → s.ex = some own
  alive : s.awaiter ≠ .terminated

theorem start_inv (hn : n ≠ 0) (own : Ex) : Inv own (system n own).start where
  remaining := by simp [system, State.uncounted, Runner.counts]
  sole := nofun
  winner := by simpa [system, Runner.won] using hn
  shared := fun _ => trivial
  loaded := nofun
  early := fun _ => ⟨nofun, rfl⟩
  waiting := nofun
  asleep := nofun
  stored := nofun
  alive := nofun

section Runner

variable {s : State n Ex} {i : Fin n.toNat} {runner : Runner Ex}

theorem setRunner_same : (s.setRunner i runner).runner i = runner :=
  Function.update_self ..

theorem setRunner_other {j : Fin n.toNat} (hj : j ≠ i) :
    (s.setRunner i runner).runner j = s.runner j :=
  Function.update_of_ne hj ..

theorem setRunner_uncounted (s : State n Ex) (i : Fin n.toNat) (runner : Runner Ex) :
    (s.setRunner i runner).uncounted.card + (s.runner i).counts.toNat =
      s.uncounted.card + runner.counts.toNat :=
  Finset.card_filter_update Runner.counts s.runner i runner

theorem setRunner_loaded (hs : ∀ j old, s.runner j = .loaded old → old ≠ 0)
    (hrunner : ∀ old, runner = .loaded old → old ≠ 0) (j : Fin n.toNat)
    (old : BitVec 64) (hj : (s.setRunner i runner).runner j = .loaded old) :
    old ≠ 0 := by
  by_cases heq : j = i
  · rw [heq, setRunner_same] at hj
    exact hrunner old hj
  · rw [setRunner_other heq] at hj
    exact hs j old hj

end Runner

/-- While a runner has yet to count, the counter is not 0. -/
theorem Inv.remaining_ne_zero {own : Ex} {s : State n Ex} (hs : Inv own s)
    {i : Fin n.toNat} (hi : (s.runner i).counts = true) : s.remaining ≠ 0 := by
  intro hzero
  have hcard := hs.remaining
  rw [hzero] at hcard
  have hmem : i ∈ s.uncounted := Finset.mem_filter.mpr ⟨Finset.mem_univ i, hi⟩
  rw [Finset.card_eq_zero.mp hcard.symm] at hmem
  exact absurd hmem (Finset.notMem_empty i)

theorem winnerOk_of_not_won {own : Ex} (s : State n Ex) {runner : Runner Ex}
    (hwon : runner.won = false) : WinnerOk own s runner := by
  cases runner with
  | ready | loaded => trivial
  | ended result =>
      cases result with
      | false => trivial
      | true => nomatch hwon
  | counted | publishing | taken | resuming | terminated => nomatch hwon

/-- A runner that has not won moves on without winning or counting. -/
theorem Inv.idle {own : Ex} {s : State n Ex} (hs : Inv own s) {i : Fin n.toNat}
    {runner : Runner Ex} (hbefore : (s.runner i).won = false)
    (hafter : runner.won = false) (hcounts : runner.counts = (s.runner i).counts)
    (hloaded : ∀ old, runner = .loaded old → old ≠ 0) :
    Inv own (s.setRunner i runner) := by
  have hwon : ∀ j, ((s.setRunner i runner).runner j).won = (s.runner j).won := by
    intro j
    by_cases hj : j = i
    · rw [hj, setRunner_same, hafter, hbefore]
    · rw [setRunner_other hj]
  constructor
  case remaining =>
    have hcard := setRunner_uncounted s i runner
    rw [hcounts] at hcard
    exact hs.remaining.trans (Nat.add_right_cancel hcard).symm
  case sole =>
    intro j k hj hk
    rw [hwon] at hj hk
    exact hs.sole j k hj hk
  case winner =>
    simp only [hwon]
    exact hs.winner
  case shared =>
    intro j
    by_cases hj : j = i
    · rw [hj, setRunner_same]
      exact winnerOk_of_not_won _ hafter
    · rw [setRunner_other hj]
      exact hs.shared j
  case loaded => exact setRunner_loaded hs.loaded hloaded
  case early => exact hs.early
  case waiting => exact hs.waiting
  case asleep => exact hs.asleep
  case stored => exact hs.stored
  case alive => exact hs.alive

/-- The runner that has won moves on; all others are at rest, as far as the shared
state goes. -/
theorem Inv.win {own : Ex} {s : State n Ex} (hs : Inv own s) {i : Fin n.toNat}
    {runner : Runner Ex} (waiter : Waiter) (posted : List Ex)
    (hbefore : (s.runner i).won = true) (hafter : runner.won = true)
    (hcounts : runner.counts = (s.runner i).counts)
    (hrunner : WinnerOk own
      { s.setRunner i runner with waiter := waiter, posted := posted } runner)
    (hwaiting : waiter = .parent → s.waiter = .parent)
    (hasleep : waiter = .null → s.waiter = .null) :
    Inv own { s.setRunner i runner with waiter := waiter, posted := posted } := by
  have hzero : s.remaining = 0 := hs.winner.mpr ⟨i, hbefore⟩
  have hwon : ∀ j, ((s.setRunner i runner).runner j).won = (s.runner j).won := by
    intro j
    by_cases hj : j = i
    · rw [hj, setRunner_same, hafter, hbefore]
    · rw [setRunner_other hj]
  constructor
  case remaining =>
    have hcard := setRunner_uncounted s i runner
    rw [hcounts] at hcard
    exact hs.remaining.trans (Nat.add_right_cancel hcard).symm
  case sole =>
    intro j k hj hk
    exact hs.sole j k ((hwon j).symm.trans hj) ((hwon k).symm.trans hk)
  case winner => exact ⟨fun _ => ⟨i, (hwon i).trans hbefore⟩, fun _ => hzero⟩
  case shared =>
    intro j
    change WinnerOk own _ ((s.setRunner i runner).runner j)
    by_cases hj : j = i
    · rw [hj, setRunner_same]
      exact hrunner
    · rw [setRunner_other hj]
      refine winnerOk_of_not_won _ ?_
      by_contra hother
      exact hj (hs.sole i j hbefore (by simpa using hother))
  case loaded =>
    refine setRunner_loaded hs.loaded fun old hold => ?_
    rw [hold] at hafter
    nomatch hafter
  case early => exact fun hopen => absurd hzero hopen
  case waiting => exact fun hparent => hs.waiting (hwaiting hparent)
  case asleep => exact fun hreturned hnull => hs.asleep hreturned (hasleep hnull)
  case stored => exact hs.stored
  case alive => exact hs.alive

/-- The exchange in `try_complete` succeeds; the one that reaches 0 has won. -/
theorem Inv.count {own : Ex} {s : State n Ex} (hs : Inv own s) {i : Fin n.toNat}
    {old : BitVec 64} (hi : s.runner i = .loaded old) (hold : old ≠ 0)
    (hsame : s.remaining = old) :
    Inv own { s.setRunner i (if old = 1 then .counted else .ended false) with
      remaining := old - 1 } := by
  subst hsame
  have hearly := hs.early hold
  have hnone : ∀ j, (s.runner j).won = false := by
    intro j
    by_contra hj
    exact hold (hs.winner.mpr ⟨j, by simpa using hj⟩)
  generalize hrunner :
    (if s.remaining = 1 then Runner.counted else .ended false : Runner Ex) = runner
  have hcounts : runner.counts = false := by
    rw [← hrunner]
    split <;> rfl
  have hwon : runner.won = decide (s.remaining = 1) := by
    rw [← hrunner]
    split
    next hone => rw [decide_eq_true hone]; rfl
    next hmore => rw [decide_eq_false hmore]; rfl
  have hother : ∀ j, ((s.setRunner i runner).runner j).won = true →
      j = i ∧ s.remaining = 1 := by
    intro j hj
    by_cases heq : j = i
    · rw [heq, setRunner_same, hwon] at hj
      exact ⟨heq, of_decide_eq_true hj⟩
    · rw [setRunner_other heq, hnone] at hj
      cases hj
  constructor
  case remaining =>
    have hcard := setRunner_uncounted s i runner
    have hone : (s.runner i).counts = true := by
      rw [hi]
      rfl
    have hrem := hs.remaining
    rw [hcounts, hone] at hcard
    change (s.remaining - 1).toNat = (s.setRunner i runner).uncounted.card
    have htrue : true.toNat = 1 := rfl
    have hfalse : false.toNat = 0 := rfl
    bv_omega
  case sole =>
    intro j k hj hk
    rw [(hother j hj).1, (hother k hk).1]
  case winner =>
    change s.remaining - 1 = 0 ↔ _
    constructor
    · intro hzero
      have hone : s.remaining = 1 := by bv_omega
      refine ⟨i, ?_⟩
      change ((s.setRunner i runner).runner i).won = true
      rw [setRunner_same, hwon, decide_eq_true hone]
    · rintro ⟨j, hj⟩
      rw [(hother j hj).2]
      rfl
  case shared =>
    intro j
    change WinnerOk own _ ((s.setRunner i runner).runner j)
    by_cases hj : j = i
    · rw [hj, setRunner_same, ← hrunner]
      split
      · exact hearly
      · trivial
    · rw [setRunner_other hj]
      exact winnerOk_of_not_won _ (hnone j)
  case loaded =>
    refine setRunner_loaded hs.loaded fun old hold => ?_
    rw [hold] at hcounts
    nomatch hcounts
  case early => exact fun _ => hearly
  case waiting => exact hs.waiting
  case asleep => exact hs.asleep
  case stored => exact hs.stored
  case alive => exact hs.alive

theorem runnerStep_inv {own : Ex} {s t : State n Ex} (hs : Inv own s) {i : Fin n.toNat}
    {spurious : Bool} (hstep : runnerStep s i spurious = some t) : Inv own t := by
  have hok := hs.shared i
  rw [runnerStep] at hstep
  cases hi : s.runner i with
  | ready =>
      rw [hi] at hstep
      cases hstep
      have hcounts : (s.runner i).counts = true := by
        rw [hi]
        rfl
      exact hs.idle (by rw [hi]; rfl) rfl hcounts.symm
        fun old hold => Runner.loaded.inj hold ▸ hs.remaining_ne_zero hcounts
  | loaded old =>
      rw [hi] at hstep
      simp only at hstep
      split at hstep
      next hzero => exact absurd hzero (hs.loaded i old hi)
      next hold =>
        split at hstep
        next hsame =>
          cases hstep
          exact hs.count hi hold hsame.1
        next =>
          cases hstep
          have hcounts : (s.runner i).counts = true := by
            rw [hi]
            rfl
          exact hs.idle (by rw [hi]; rfl) rfl hcounts.symm
            fun old hold => Runner.loaded.inj hold ▸ hs.remaining_ne_zero hcounts
  | counted =>
      rw [hi] at hstep hok
      cases hstep
      exact hs.win s.waiter s.posted (by rw [hi]; rfl) rfl
        (by rw [hi]; rfl) ⟨hok.1, hok.2, .inr rfl⟩ id id
  | publishing addr =>
      rw [hi] at hstep hok
      obtain ⟨hopen, hposted, haddr⟩ := hok
      simp only at hstep
      split at hstep
      next hsentinel =>
        obtain hnull | hsame := haddr
        · cases hnull.symm.trans hsentinel
        · exact absurd (hsame.symm.trans hsentinel) hopen
      next =>
        split at hstep
        next hsame =>
          cases hstep
          refine hs.win _ s.posted (by rw [hi]; rfl) ?_ ?_ ?_ nofun nofun
          · split <;> rfl
          · rw [hi]
            split <;> rfl
          · split
            next hnull => 
              refine ⟨rfl, ?_⟩
              rw [if_neg]
              · exact hposted
              · intro hreturned
                exact hs.asleep hreturned (hsame.1.trans hnull)
            next hnull =>
              refine ⟨rfl, hs.waiting ?_, hposted⟩
              cases hwaiter : s.waiter with
              | null => exact absurd (hsame.1.symm.trans hwaiter) hnull
              | parent => rfl
              | sentinel => exact absurd hwaiter hopen
        next =>
          cases hstep
          exact hs.win s.waiter s.posted (by rw [hi]; rfl) rfl
            (by rw [hi]; rfl) ⟨hopen, hposted, .inr rfl⟩ id id
  | taken =>
      rw [hi] at hstep hok
      cases hstep
      exact hs.win s.waiter s.posted (by rw [hi]; rfl) rfl
        (by rw [hi]; rfl)
        ⟨hok.1, hok.2.1, hok.2.2, hs.stored (.inr hok.2.1)⟩ id id
  | resuming ex =>
      rw [hi] at hstep hok
      obtain ⟨hsentinel, hreturned, hposted, rfl⟩ := hok
      cases hstep
      refine hs.win s.waiter _ (by rw [hi]; rfl) rfl (by rw [hi]; rfl)
        ⟨hsentinel, ?_⟩ id id
      rw [hposted]
      exact (if_pos hreturned).symm
  | ended result => 
      rw [hi] at hstep
      nomatch hstep
  | terminated => 
      rw [hi] at hstep
      nomatch hstep

/-- The awaiter moves on, without or with an exchange of `waiter_addr`. -/
theorem Inv.await {own : Ex} {s : State n Ex} (hs : Inv own s) {awaiter : Awaiter}
    (ex : Option Ex) {waiter : Waiter} (hbefore : s.awaiter ≠ .returned true)
    (halive : awaiter ≠ .terminated)
    (hwaiter : waiter = s.waiter ∧ awaiter ≠ .returned true ∨
      s.waiter = .null ∧ waiter = .parent ∧ awaiter = .returned true)
    (hstored : awaiter = .exchange ∨ awaiter = .returned true → ex = some own) :
    Inv own { s with awaiter := awaiter, ex := ex, waiter := waiter } where
  remaining := hs.remaining
  sole := hs.sole
  winner := hs.winner
  shared := by
    intro i
    have hok := hs.shared i
    change WinnerOk own _ (s.runner i)
    -- the word is not the sentinel unless it was
    have hsentinel : s.waiter ≠ .sentinel → waiter ≠ .sentinel := by
      obtain ⟨rfl, -⟩ | ⟨-, rfl, -⟩ := hwaiter
      · exact id
      · exact fun _ => nofun
    cases hi : s.runner i with
    | ready | loaded => trivial
    | counted =>
        rw [hi] at hok
        exact ⟨hsentinel hok.1, hok.2⟩
    | publishing addr =>
        rw [hi] at hok
        refine ⟨hsentinel hok.1, hok.2.1, ?_⟩
        obtain ⟨rfl, -⟩ | ⟨hnull, -, -⟩ := hwaiter
        · exact hok.2.2
        · obtain haddr | haddr := hok.2.2
          · exact .inl haddr
          · exact .inl (haddr.trans hnull)
    | taken =>
        rw [hi] at hok
        exact absurd hok.2.1 hbefore
    | resuming ex =>
        rw [hi] at hok
        exact absurd hok.2.1 hbefore
    | ended result =>
        cases result with
        | false => trivial
        | true =>
            rw [hi] at hok
            obtain ⟨hclosed, hposted⟩ := hok
            rw [if_neg hbefore] at hposted
            obtain ⟨rfl, hnot⟩ | ⟨hnull, -, -⟩ := hwaiter
            · exact ⟨hclosed, hposted.trans (if_neg hnot).symm⟩
            · cases hclosed.symm.trans hnull
    | terminated =>
        rw [hi] at hok
        exact hok
  loaded := hs.loaded
  early := by
    intro hopen
    refine ⟨?_, (hs.early hopen).2⟩
    obtain ⟨rfl, -⟩ | ⟨-, rfl, -⟩ := hwaiter
    · exact (hs.early hopen).1
    · exact nofun
  waiting := by
    intro hparent
    obtain ⟨rfl, -⟩ | ⟨-, -, hreturned⟩ := hwaiter
    · exact absurd (hs.waiting hparent) hbefore
    · exact hreturned
  asleep := by
    intro hreturned hnull
    obtain ⟨-, hnot⟩ | ⟨-, rfl, -⟩ := hwaiter
    · exact hnot hreturned
    · cases hnull
  stored := hstored
  alive := halive

theorem awaiterStep_inv {own : Ex} {s t : State n Ex} (hs : Inv own s)
    (hstep : awaiterStep own s = some t) : Inv own t := by
  rw [awaiterStep] at hstep
  cases hawaiter : s.awaiter with
  | ready =>
      rw [hawaiter] at hstep
      cases hstep
      refine hs.await s.ex (by rw [hawaiter]; nofun) ?_ (.inl ⟨rfl, ?_⟩) ?_
      all_goals split <;> nofun
  | suspend =>
      rw [hawaiter] at hstep
      cases hstep
      refine hs.await s.ex (by rw [hawaiter]; nofun) ?_ (.inl ⟨rfl, ?_⟩) ?_
      all_goals split <;> nofun
  | storeEx =>
      rw [hawaiter] at hstep
      cases hstep
      exact hs.await _ (by rw [hawaiter]; nofun) nofun (.inl ⟨rfl, nofun⟩) fun _ => rfl
  | exchange =>
      rw [hawaiter] at hstep
      have hstored := hs.stored (.inl hawaiter)
      cases hwaiter : s.waiter with
      | null =>
          rw [hwaiter] at hstep
          cases hstep
          exact hs.await s.ex (by rw [hawaiter]; nofun) nofun
            (.inr ⟨hwaiter, rfl, rfl⟩) fun _ => hstored
      | parent =>
          cases hawaiter.symm.trans (hs.waiting hwaiter)
      | sentinel =>
          rw [hwaiter] at hstep
          cases hstep
          exact hs.await s.ex (by rw [hawaiter]; nofun) nofun
            (.inl ⟨hwaiter.symm, nofun⟩) nofun
  | passed | returned | terminated =>
      rw [hawaiter] at hstep
      nomatch hstep

theorem step_inv {own : Ex} {s t : State n Ex} (hs : Inv own s) {a : Action n}
    (hstep : step own s a = some t) : Inv own t := by
  cases a with
  | runner i spurious => exact runnerStep_inv hs hstep
  | awaiter => exact awaiterStep_inv hs hstep

theorem inv_of_reachable (hn : n ≠ 0) {own : Ex} {s : State n Ex}
    (hs : (system n own).Reachable s) : Inv own s :=
  hs.invariant (start_inv hn own) fun _ _ _ hinv hstep => step_inv hinv hstep

/-- All runners have ended, and the awaiter waits or has gone on. -/
structure State.Settled (s : State n Ex) : Prop where
  runners : ∀ i, ∃ result, s.runner i = .ended result
  awaiter : s.awaiter.isSettled = true

theorem runnerStep_isSome {s : State n Ex} {i : Fin n.toNat}
    (hended : ∀ result, s.runner i ≠ .ended result)
    (halive : s.runner i ≠ .terminated) :
    (runnerStep s i false).isSome = true := by
  rw [runnerStep]
  cases hi : s.runner i with
  | ready | counted | taken => rfl
  | loaded old =>
      simp only
      split
      · rfl
      · split <;> rfl
  | publishing addr =>
      simp only
      split
      · rfl
      · split <;> rfl
  | resuming ex => cases ex <;> rfl
  | ended result => exact absurd hi (hended result)
  | terminated => exact absurd hi halive

theorem awaiterStep_isSome (own : Ex) {s : State n Ex}
    (hopen : s.awaiter.isSettled = false) (halive : s.awaiter ≠ .terminated) :
    (awaiterStep own s).isSome = true := by
  rw [awaiterStep]
  cases hawaiter : s.awaiter with
  | ready | suspend | storeEx => rfl
  | exchange => cases s.waiter <;> rfl
  | passed | returned =>
      rw [hawaiter] at hopen
      nomatch hopen
  | terminated => exact absurd hawaiter halive

/-- Before all have come to rest some step is possible. -/
theorem Inv.progress {own : Ex} {s : State n Ex} (hs : Inv own s) :
    s.Settled ∨ ∃ a t, step own s a = some t := by
  by_cases hrunners : ∀ i, ∃ result, s.runner i = .ended result
  · cases hawaiter : s.awaiter.isSettled with
    | true => exact .inl ⟨hrunners, hawaiter⟩
    | false =>
        obtain ⟨t, ht⟩ := Option.isSome_iff_exists.mp
          (awaiterStep_isSome own hawaiter hs.alive)
        exact .inr ⟨.awaiter, t, ht⟩
  · push Not at hrunners
    obtain ⟨i, hi⟩ := hrunners
    have halive : s.runner i ≠ .terminated := by
      intro hterminated
      have hok := hs.shared i
      rw [hterminated] at hok
      exact hok
    obtain ⟨t, ht⟩ := Option.isSome_iff_exists.mp (runnerStep_isSome hi halive)
    exact .inr ⟨.runner i false, t, ht⟩

theorem Inv.settled {own : Ex} {s : State n Ex} (hs : Inv own s) (hrest : s.Settled) :
    s.remaining = 0 ∧
      (∃ i, s.runner i = .ended true ∧ ∀ j, j ≠ i → s.runner j = .ended false) ∧
      s.posted = if s.awaiter = .returned true then [own] else [] := by
  have hnone : s.uncounted = ∅ := by
    refine Finset.filter_eq_empty_iff.mpr fun i _ => ?_
    obtain ⟨result, hi⟩ := hrest.runners i
    rw [hi]
    nofun
  have hzero : s.remaining = 0 := by
    have hcard := hs.remaining
    rw [hnone, Finset.card_empty] at hcard
    exact BitVec.eq_of_toNat_eq hcard
  obtain ⟨i, hwon⟩ := hs.winner.mp hzero
  obtain ⟨result, hi⟩ := hrest.runners i
  obtain rfl : result = true := by
    rw [hi] at hwon
    cases result with
    | true => rfl
    | false => nomatch hwon
  refine ⟨hzero, ⟨i, hi, fun j hj => ?_⟩, ?_⟩
  · obtain ⟨result, hresult⟩ := hrest.runners j
    cases result with
    | false => exact hresult
    | true => exact absurd (hs.sole i j hwon (by rw [hresult]; rfl)) hj
  · have hok := hs.shared i
    rw [hi] at hok
    exact hok.2

theorem Inv.posted {own : Ex} {s : State n Ex} (hs : Inv own s) :
    s.posted = [] ∨ s.posted = [own] ∧ s.awaiter = .returned true := by
  by_cases hzero : s.remaining = 0
  · obtain ⟨i, hwon⟩ := hs.winner.mp hzero
    have hok := hs.shared i
    cases hi : s.runner i with
    | ready | loaded =>
        rw [hi] at hwon
        nomatch hwon
    | counted =>
        rw [hi] at hok
        exact .inl hok.2
    | publishing addr =>
        rw [hi] at hok
        exact .inl hok.2.1
    | taken =>
        rw [hi] at hok
        exact .inl hok.2.2
    | resuming ex =>
        rw [hi] at hok
        exact .inl hok.2.2.1
    | ended result =>
        cases result with
        | false =>
            rw [hi] at hwon
            nomatch hwon
        | true =>
            rw [hi] at hok
            have hposted := hok.2
            split at hposted
            next hreturned => exact .inr ⟨hposted, hreturned⟩
            next => exact .inl hposted
    | terminated =>
        rw [hi] at hok
        exact hok.elim
  · exact .inl (hs.early hzero).2

/-- In every run the counter is the number of runners that have yet to count, so it
never wraps, and one `try_complete` at most returns true; the awaiter is posted once at
most, to the executor it stored, and only after `await_suspend` returned true; no check
fails.  Until all have come to rest there is a step to take, and then the counter is 0,
one `try_complete` has returned true, and the awaiter has been posted if it waits. -/
theorem fanIn_resumes_once (hn : n ≠ 0) (own : Ex) {s : State n Ex}
    (hs : (system n own).Reachable s) :
    (s.remaining.toNat = s.uncounted.card ∧
      ∀ i j, (s.runner i).won = true → (s.runner j).won = true → j = i) ∧
    (s.posted = [] ∨ s.posted = [own] ∧ s.awaiter = .returned true) ∧
    (s.awaiter ≠ .terminated ∧ ∀ i, s.runner i ≠ .terminated) ∧
    (s.Settled ∨ ∃ a t, step own s a = some t) ∧
    (s.Settled →
      s.remaining = 0 ∧
      (∃ i, s.runner i = .ended true ∧ ∀ j, j ≠ i → s.runner j = .ended false) ∧
      s.posted = if s.awaiter = .returned true then [own] else []) := by
  have hinv := inv_of_reachable hn hs
  refine ⟨⟨hinv.remaining, hinv.sole⟩, hinv.posted, ⟨hinv.alive, fun i hi => ?_⟩,
    hinv.progress, hinv.settled⟩
  have hok := hinv.shared i
  rw [hi] at hok
  exact hok

theorem fanIn_resumes_once_two :
    ∃ s : State 2 Unit, (s.posted = [()] ∧ s.remaining = 0) ∧
      (s.posted = [] ∨ s.posted = [()] ∧ s.awaiter = .returned true) := by
  obtain ⟨s, hs, hp⟩ := TransitionSystem.exists_reachable_of_exec (system 2 ())
    (List.replicate 4 Action.awaiter ++
      List.replicate 2 (Action.runner ⟨0, by decide⟩ false) ++
      List.replicate 6 (Action.runner ⟨1, by decide⟩ false))
    (fun s => decide (s.posted = [()] ∧ s.remaining = 0)) (by decide)
  exact ⟨s, of_decide_eq_true hp, (fanIn_resumes_once (by decide) () hs).2.1⟩

end FanIn

end Iocoro
