/-
Relative timeouts: the functions that add a duration to the clock, and when the sum
lets a timer fire, or `run_for` return, too early.  Time points and durations are
64-bit counts of nanoseconds, and their sums and products wrap around.
-/
import Iocoro.TimerExpiry
import Iocoro.NextWait

namespace Iocoro

universe u

namespace TimerRegistry

variable {Op : Type u}

section Firings

variable (algorithms : BinaryHeap.Algorithms Nat)

/-- The operations that the loop of `process_expired` fires, each with the sample of
the clock that made it due. -/
def firings (clock : Nat → Int) : Nat → Nat → TimerRegistry Op → List (Op × Int)
  | 0, _, _ => []
  | fuel + 1, k, r =>
      match r.expireStep algorithms (clock k) with
      | none => []
      | some (t, out) =>
          (if out.completed then (out.op.map fun op => (op, clock k)).toList else []) ++
            firings clock fuel (if out.sampled then k + 1 else k) t

/-- They are the entries that `process_expired` completes. -/
theorem firings_eq_ready (clock : Nat → Int) (fuel k : Nat) (r : TimerRegistry Op) :
    (firings algorithms clock fuel k r).map Prod.fst =
      ((expireLoop algorithms clock fuel k r).2.filter Prod.snd).map Prod.fst := by
  induction fuel generalizing k r with
  | zero => rfl
  | succ fuel ih =>
      rw [firings, expireLoop]
      cases r.expireStep algorithms (clock k) with
      | none => rfl
      | some result =>
          obtain ⟨t, out⟩ := result
          simp only [List.map_append, List.filter_append, ih]
          cases out.op <;> cases out.completed <;> simp

/-- No node changes its expiry or gets an operation. -/
def Fades (r t : TimerRegistry Op) : Prop :=
  ∀ i, (t.node i).expiry = (r.node i).expiry ∧
    ∀ op, (t.node i).op = some op → (r.node i).op = some op

theorem fades_refl (r : TimerRegistry Op) : Fades r r :=
  fun _ => ⟨rfl, fun _ hop => hop⟩

theorem Fades.trans {r t u : TimerRegistry Op} (hrt : Fades r t) (htu : Fades t u) :
    Fades r u :=
  fun i => ⟨(htu i).1.trans (hrt i).1, fun op hop => (hrt i).2 op ((htu i).2 op hop)⟩

theorem setNode_fades (r : TimerRegistry Op) (index : Nat) {new : TimerNode Op}
    (hexpiry : new.expiry = (r.node index).expiry) (hop : new.op = none) :
    Fades r (r.setNode index new) := by
  intro i
  rw [node_setNode_eq]
  split
  next hi =>
    obtain ⟨rfl, _⟩ := hi
    exact ⟨hexpiry, fun op hsome => absurd (hop.symm.trans hsome) (by simp)⟩
  next => exact ⟨rfl, fun _ hsome => hsome⟩

theorem recycleNode_fades (r : TimerRegistry Op) (index : Nat) :
    Fades r (r.recycleNode index) :=
  setNode_fades r index rfl rfl

theorem cancel_fades (r : TimerRegistry Op) (index token : Nat) :
    Fades r (r.cancel index token).1 := by
  rw [cancel_eq]
  split
  · exact setNode_fades r index rfl rfl
  · exact fades_refl r

theorem drainAll_fades (r : TimerRegistry Op) : Fades r r.drainAll.1 := by
  intro i
  by_cases hi : i < r.nodes.length
  · rw [drainAll_node r hi]
    exact ⟨rfl, fun op hop => absurd hop (by simp [TimerNode.recycle])⟩
  · have hout : r.drainAll.1.node i = r.node i := by
      have hnone : r.nodes[i]? = none := List.getElem?_eq_none (not_lt.mp hi)
      unfold drainAll
      split
      · rfl
      · simp [TimerRegistry.node, hnone]
    rw [hout]
    exact ⟨rfl, fun _ hop => hop⟩

/-- What a round does, whatever the state of the registry: the node it takes is the
top, and a node that is completed is due. -/
theorem expireStep_round {r t : TimerRegistry Op} {now : Int} {out : Expired Op}
    (hstep : r.expireStep algorithms now = some (t, out)) :
    Fades r t ∧ (out.completed = true →
      ∃ i, out.op = (r.node i).op ∧ (r.node i).expiry ≤ now) := by
  unfold expireStep at hstep
  split at hstep
  · simp at hstep
  next index rest _ =>
    have hfades : Fades r ((r.popHeap algorithms).recycleNode index) :=
      recycleNode_fades (r.popHeap algorithms) index
    simp only at hstep
    split at hstep
    · obtain ⟨rfl, rfl⟩ := Prod.mk.inj (Option.some.inj hstep)
      exact ⟨hfades, nofun⟩
    · split at hstep
      · simp at hstep
      next hdue =>
        split at hstep
        · obtain ⟨rfl, rfl⟩ := Prod.mk.inj (Option.some.inj hstep)
          exact ⟨hfades, nofun⟩
        · obtain ⟨rfl, rfl⟩ := Prod.mk.inj (Option.some.inj hstep)
          exact ⟨hfades, fun _ => ⟨index, rfl, not_lt.mp hdue⟩⟩

theorem expireLoop_fades (clock : Nat → Int) (fuel k : Nat) (r : TimerRegistry Op) :
    Fades r (expireLoop algorithms clock fuel k r).1 := by
  induction fuel generalizing k r with
  | zero => exact fades_refl r
  | succ fuel ih =>
      rw [expireLoop]
      cases hstep : r.expireStep algorithms (clock k) with
      | none => exact fades_refl r
      | some result =>
          obtain ⟨t, out⟩ := result
          exact (expireStep_round algorithms hstep).1.trans (ih _ t)

/-- An operation is fired at a sample at which its own node is due. -/
theorem mem_firings_due {clock : Nat → Int} {fuel k : Nat} {r : TimerRegistry Op}
    {op : Op} {sample : Int} (hfired : (op, sample) ∈ firings algorithms clock fuel k r) :
    ∃ i, (r.node i).op = some op ∧ (r.node i).expiry ≤ sample := by
  induction fuel generalizing k r with
  | zero => exact absurd hfired List.not_mem_nil
  | succ fuel ih =>
      rw [firings] at hfired
      cases hstep : r.expireStep algorithms (clock k) with
      | none =>
          rw [hstep] at hfired
          exact absurd hfired List.not_mem_nil
      | some result =>
          obtain ⟨t, out⟩ := result
          obtain ⟨hfades, hround⟩ := expireStep_round algorithms hstep
          rw [hstep] at hfired
          rcases List.mem_append.mp hfired with hnow | hlater
          · split at hnow
            next hcompleted =>
              obtain ⟨i, hop, hdue⟩ := hround hcompleted
              obtain ⟨op', hop', heq⟩ : ∃ op', out.op = some op' ∧
                  (op', clock k) = (op, sample) := by
                simpa using hnow
              obtain ⟨rfl, rfl⟩ := Prod.mk.inj heq
              exact ⟨i, hop.symm.trans hop', hdue⟩
            next => exact absurd hnow List.not_mem_nil
          · obtain ⟨i, hop, hdue⟩ := ih hlater
            exact ⟨i, (hfades i).2 op hop, (hfades i).1 ▸ hdue⟩

end Firings

end TimerRegistry

namespace TimerExpiry

open TimerRegistry

/-- An operation in a node is that of a timer with the expiry of the node. -/
def Dated (s : State) : Prop :=
  ∀ i id, (s.registry.node i).op = some id →
    ∃ timer, s.timers[id]? = some timer ∧ timer.expiry = (s.registry.node i).expiry

theorem Dated.mark {s : State} (hs : Dated s) {t : TimerRegistry Nat}
    (hfades : Fades s.registry t) (outcome : Nat → Option Status) :
    Dated { registry := t, timers := TimerExpiry.mark s.timers outcome } := by
  intro i id hop
  obtain ⟨timer, htimer, hexpiry⟩ := hs i id ((hfades i).2 id hop)
  refine ⟨_, by rw [mark_getElem?, htimer]; rfl, ?_⟩
  rw [(hfades i).1, ← hexpiry]
  split <;> rfl

theorem step_dated {algorithms : BinaryHeap.Algorithms Nat} {s t : State} {a : Action}
    (hs : Dated s) (hstep : (machine algorithms).step s a = some t) : Dated t := by
  cases a with
  | addTimer expiry =>
      obtain rfl := Option.some.inj hstep
      intro i id hop
      rcases (addTimer_node algorithms s.registry expiry (some s.timers.length) i).2
        with hsame | ⟨_, hnew⟩
      · have hold : (s.registry.node i).op = some id := hsame ▸ hop
        obtain ⟨timer, htimer, hexpiry⟩ := hs i id hold
        refine ⟨timer, ?_, hexpiry.trans (congrArg TimerNode.expiry hsame).symm⟩
        exact (List.getElem?_append_left (List.getElem?_eq_some_iff.mp htimer).1).trans
          htimer
      · obtain rfl : s.timers.length = id := by
          have hid := (congrArg TimerNode.op hnew).symm.trans hop
          exact Option.some.inj hid
        exact ⟨_, List.getElem?_concat_length, (congrArg TimerNode.expiry hnew).symm⟩
  | cancel index token =>
      exact Option.some.inj hstep ▸ hs.mark (cancel_fades _ _ _) _
  | processExpired clock _ =>
      exact Option.some.inj hstep ▸ hs.mark (expireLoop_fades _ _ _ _ _) _
  | drainAll => exact Option.some.inj hstep ▸ hs.mark (drainAll_fades _) _

theorem reachable_dated {algorithms : BinaryHeap.Algorithms Nat} {s : State}
    (hs : (machine algorithms).Reachable s) : Dated s :=
  hs.invariant (fun i id hop => by simp [machine, TimerRegistry.node] at hop)
    fun _ _ _ hinv hstep => step_dated hinv hstep

end TimerExpiry

namespace RelativeTimeout

open TimerRegistry

/-! ### The sums -/

/-- The values of a 64-bit count of nanoseconds. -/
def FitsInt64 (n : Int) : Prop := -2 ^ 63 ≤ n ∧ n < 2 ^ 63

/-- The conversion of a duration in units of `unit` nanoseconds. -/
def toNanoseconds (unit : Nat) (count : Int) : Int :=
  FixedWidth.toInt 64 (unit * count)

/-- `time_point + duration`. -/
def timePointAdd (now d : Int) : Int := FixedWidth.toInt 64 (now + d)

/-- `steady_timer(ex, after)`: the expiry of the new timer. -/
def steadyTimer (now after : Int) : Int := timePointAdd now after

/-- `expires_after`: the new `expiry_`. -/
def expiresAfter (now d : Int) : Int := timePointAdd now d

/-- `co_sleep`: the expiry that its timer waits for. -/
def coSleep (now d : Int) : Int := expiresAfter now d

/-- `with_timeout`, for a duration in units of `unit` nanoseconds. -/
def withTimeout (unit : Nat) (now timeout : Int) : Int :=
  expiresAfter now (toNanoseconds unit timeout)

/-- The `deadline` of `run_for`, which takes milliseconds. -/
def runForDeadline (now timeout : Int) : Int :=
  timePointAdd now (toNanoseconds 1000000 timeout)

/-- The ways to arm a timer with a relative timeout. -/
inductive Timeout where
  | steadyTimer
  | expiresAfter
  | coSleep
  | withTimeout (unit : Nat)
deriving DecidableEq, Repr

def Timeout.expiry (now count : Int) : Timeout → Int
  | .steadyTimer => RelativeTimeout.steadyTimer now count
  | .expiresAfter => RelativeTimeout.expiresAfter now count
  | .coSleep => RelativeTimeout.coSleep now count
  | .withTimeout unit => RelativeTimeout.withTimeout unit now count

/-- How many nanoseconds its argument counts. -/
def Timeout.unit : Timeout → Nat
  | .steadyTimer | .expiresAfter | .coSleep => 1
  | .withTimeout unit => unit

/-! ### The loop of `run_for` -/

/-- One round of the loop: the sample it takes and what its three tests of
`is_stopped() || !has_work()` find. -/
structure Round where
  sample : Int
  first : Bool
  second : Bool
  third : Bool
deriving DecidableEq, Repr

/-- How the loop was left. -/
inductive Exit where
  | deadline (sample : Int)
  | idle
deriving DecidableEq, Repr

/-- The loop over the given rounds; `none` when it goes on after them. -/
def runFor (deadline : Int) : List Round → Option Exit
  | [] => none
  | round :: rest =>
      if deadline ≤ round.sample then some (.deadline round.sample)
      else if round.first then some .idle
      else if round.second then some .idle
      else if round.third then some .idle
      else runFor deadline rest

/-! ### Ends that are not early -/

/-- Samples of the clock taken after it read `now`. -/
structure Samples (now : Int) (clock : Nat → Int) : Prop where
  monotone : Monotone clock
  after : ∀ k, now ≤ clock k
  fits : ∀ k, clock k < 2 ^ 63

/-- Whatever else the registry is used for, no timer with this expiry is fired at a
sample before the deadline. -/
def NeverFiresEarly (expiry now deadline : Int) : Prop :=
  ∀ (algorithms : BinaryHeap.Algorithms Nat) (s : TimerExpiry.State),
    (TimerExpiry.machine algorithms).Reachable s →
    ∀ id timer, s.timers[id]? = some timer → timer.expiry = expiry →
    ∀ clock, Samples now clock →
    ∀ sample, (id, sample) ∈
      firings algorithms clock s.registry.heap.length 0 s.registry →
      deadline ≤ sample

/-- The loop of `run_for` is not left because of its deadline at a sample before the
exact one. -/
def NeverReturnsEarly (cutoff now deadline : Int) : Prop :=
  ∀ rounds : List Round,
    (∀ round ∈ rounds, now ≤ round.sample ∧ round.sample < 2 ^ 63) →
    ∀ sample, runFor cutoff rounds = some (.deadline sample) → deadline ≤ sample

theorem toInt_of_fits {n : Int} (hn : FitsInt64 n) : FixedWidth.toInt 64 n = n := by
  unfold FitsInt64 at hn
  unfold FixedWidth.toInt
  exact Int.bmod_eq_of_le (by omega) (by omega)

theorem toInt_lt (n : Int) : FixedWidth.toInt 64 n < 2 ^ 63 := by
  have hlt := @Int.bmod_lt n (2 ^ 64) (by decide)
  unfold FixedWidth.toInt
  omega

/-- The conversion and the sum wrap around together. -/
theorem timePointAdd_toNanoseconds (unit : Nat) (now count : Int) :
    timePointAdd now (toNanoseconds unit count) =
      FixedWidth.toInt 64 (now + unit * count) := by
  simp only [timePointAdd, toNanoseconds, FixedWidth.toInt, Int.add_bmod_bmod]

theorem Timeout.expiry_eq (timeout : Timeout) (now count : Int) :
    timeout.expiry now count = FixedWidth.toInt 64 (now + timeout.unit * count) := by
  cases timeout with
  | steadyTimer | expiresAfter | coSleep =>
      simp [expiry, RelativeTimeout.steadyTimer, RelativeTimeout.expiresAfter,
        RelativeTimeout.coSleep, timePointAdd, unit]
  | withTimeout unit => exact timePointAdd_toNanoseconds unit now count

theorem oneTimer_firings (expiry sample : Int) (hdue : expiry ≤ sample) :
    ∃ s, (TimerExpiry.machine (BinaryHeap.sorted Nat)).Reachable s ∧
      (∃ timer, s.timers[0]? = some timer ∧ timer.expiry = expiry) ∧
      (0, sample) ∈ firings (BinaryHeap.sorted Nat) (fun _ => sample)
        s.registry.heap.length 0 s.registry := by
  refine ⟨_, .step (a := .addTimer expiry) .start trivial rfl, ⟨_, rfl, rfl⟩, ?_⟩
  have hheap := NextWait.oneTimer_heap expiry
  have hnode : (NextWait.oneTimer expiry).node 0 = { expiry, op := some 0 } := by
    simp [NextWait.oneTimer, addTimer, allocate, pushHeap, setNode, node,
      FixedWidth.truncate]
  change (0, sample) ∈ firings (BinaryHeap.sorted Nat) (fun _ => sample)
    (NextWait.oneTimer expiry).heap.length 0 (NextWait.oneTimer expiry)
  rw [hheap, List.length_singleton, firings,
    expireStep_of_due _ hheap (by rw [hnode]) (by rw [hnode]; exact hdue), hnode]
  exact List.mem_append_left _ List.mem_cons_self

theorem neverFiresEarly_iff {now deadline : Int} (hnow : FitsInt64 now)
    (hdeadline : now ≤ deadline) :
    NeverFiresEarly (FixedWidth.toInt 64 deadline) now deadline ↔
      deadline < 2 ^ 63 := by
  constructor
  · intro hnever
    by_contra hlate
    have hwrapped := toInt_lt deadline
    obtain ⟨s, hs, ⟨timer, htimer, hexpiry⟩, hfired⟩ := oneTimer_firings
      (FixedWidth.toInt 64 deadline) (max (FixedWidth.toInt 64 deadline) now)
      (le_max_left _ _)
    have hearly := hnever _ s hs 0 timer htimer hexpiry _
      ⟨monotone_const, fun _ => le_max_right _ _, fun _ => max_lt hwrapped hnow.2⟩
      _ hfired
    have hlt := max_lt hwrapped hnow.2
    omega
  · intro hfits algorithms s hs id timer htimer hexpiry clock _ sample hfired
    rw [toInt_of_fits ⟨hnow.1.trans hdeadline, hfits⟩] at hexpiry
    obtain ⟨i, hop, hdue⟩ := mem_firings_due algorithms hfired
    obtain ⟨timer', htimer', hexpiry'⟩ := TimerExpiry.reachable_dated hs i id hop
    obtain rfl := Option.some.inj (htimer.symm.trans htimer')
    omega

theorem runFor_deadline {deadline sample : Int} {rounds : List Round}
    (hrun : runFor deadline rounds = some (.deadline sample)) :
    deadline ≤ sample := by
  induction rounds with
  | nil => simp [runFor] at hrun
  | cons round rest ih =>
      rw [runFor] at hrun
      split at hrun
      next hdue =>
        obtain rfl := Exit.deadline.inj (Option.some.inj hrun)
        exact hdue
      next =>
        split at hrun
        · simp at hrun
        · split at hrun
          · simp at hrun
          · split at hrun
            · simp at hrun
            · exact ih hrun

theorem neverReturnsEarly_iff {now deadline : Int} (hnow : FitsInt64 now)
    (hdeadline : now ≤ deadline) :
    NeverReturnsEarly (FixedWidth.toInt 64 deadline) now deadline ↔
      deadline < 2 ^ 63 := by
  constructor
  · intro hnever
    by_contra hlate
    have hlt := max_lt (toInt_lt deadline) hnow.2
    have hearly := hnever
      [⟨max (FixedWidth.toInt 64 deadline) now, false, false, false⟩]
      (fun round hround => by
        rw [List.mem_singleton.mp hround]
        exact ⟨le_max_right _ _, hlt⟩)
      _ (if_pos (le_max_left _ _))
    exact absurd (hearly.trans_lt hlt) hlate
  · intro hfits rounds _ sample hrun
    rw [toInt_of_fits ⟨hnow.1.trans hdeadline, hfits⟩] at hrun
    exact runFor_deadline hrun

/-- No timeout ends early, exactly as long as the sum of the clock and the duration,
in nanoseconds, is a time point. -/
theorem relative_timeout_not_early_iff (now count : Int) (hnow : FitsInt64 now)
    (hcount : 0 ≤ count) :
    (∀ timeout : Timeout,
      NeverFiresEarly (timeout.expiry now count) now (now + timeout.unit * count) ↔
        now + timeout.unit * count < 2 ^ 63) ∧
    (NeverReturnsEarly (runForDeadline now count) now (now + 1000000 * count) ↔
      now + 1000000 * count < 2 ^ 63) := by
  constructor
  · intro timeout
    rw [timeout.expiry_eq]
    refine neverFiresEarly_iff hnow ?_
    have hnonneg : 0 ≤ (timeout.unit : Int) * count :=
      Int.mul_nonneg (Int.natCast_nonneg _) hcount
    omega
  · rw [runForDeadline, timePointAdd_toNanoseconds]
    exact neverReturnsEarly_iff hnow (by omega)

/-- One second after the start of the clock: a timeout of five hours, and `run_for`
with five milliseconds. -/
theorem relative_timeout_not_early_fiveHours :
    FitsInt64 1000000000 ∧
      NeverFiresEarly ((Timeout.withTimeout 3600000000000).expiry 1000000000 5)
        1000000000 18001000000000 ∧
      NeverReturnsEarly (runForDeadline 1000000000 5) 1000000000 1005000000 := by
  have hnow : FitsInt64 1000000000 := by
    unfold FitsInt64
    omega
  obtain ⟨htimer, hrun⟩ :=
    relative_timeout_not_early_iff 1000000000 5 hnow (by decide)
  exact ⟨hnow, (htimer (.withTimeout 3600000000000)).mpr (by decide),
    hrun.mpr (by decide)⟩

/-- `duration::max()` makes the expiry wrap around to a time point in the past. -/
theorem not_relative_timeout_not_early_max :
    ¬ ∀ now count : Int, FitsInt64 now → 0 ≤ count → count < 2 ^ 63 →
      (∀ timeout : Timeout, NeverFiresEarly (timeout.expiry now count) now
        (now + timeout.unit * count)) ∧
      NeverReturnsEarly (runForDeadline now count) now (now + 1000000 * count) := by
  intro hall
  have hnow : FitsInt64 1 := by
    unfold FitsInt64
    omega
  have hnever := (hall 1 (2 ^ 63 - 1) hnow (by decide) (by decide)).1 .expiresAfter
  rw [Timeout.expiry_eq, neverFiresEarly_iff hnow (by decide)] at hnever
  exact absurd hnever (by decide)

end RelativeTimeout

end Iocoro
