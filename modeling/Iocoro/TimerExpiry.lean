/-
`timer_registry::process_expired`: what the collecting loop fires, in which order,
and what it leaves, for every registry that calls of the registry can produce and
for a clock that does not go back.
-/
import Mathlib
import Iocoro.TimerRegistry
import Iocoro.TransitionSystem

namespace Iocoro

universe u

namespace TimerRegistry

variable {Op : Type u}

section Loop

variable (algorithms : BinaryHeap.Algorithms Nat)

/-- The last sample of the clock that the loop takes, if it takes one: the loop also
samples when it finds that the top is not due. -/
def lastSample (clock : Nat → Int) : Nat → Nat → TimerRegistry Op → Option Int
  | 0, _, _ => none
  | fuel + 1, k, r =>
      match r.expireStep algorithms (clock k) with
      | none => if r.heap = [] then none else some (clock k)
      | some (t, out) =>
          if out.sampled then
            some ((lastSample clock fuel (k + 1) t).getD (clock k))
          else lastSample clock fuel k t

theorem expireStep_of_cancelled {r : TimerRegistry Op} (hr : Wf r) {index : Nat}
    {rest : List Nat} (hheap : r.heap = index :: rest)
    (hstate : (r.node index).state = .cancelled) (now : Int) :
    r.expireStep algorithms now =
      some ((r.popHeap algorithms).recycleNode index, ⟨false, none, false⟩) := by
  have hop : (r.node index).op = none := by
    rcases hr.queued index (by simp [hheap]) with ⟨hpending, _⟩ | ⟨_, hnone⟩
    · rw [hstate] at hpending
      exact absurd hpending (by decide)
    · exact hnone
  simp [expireStep, hheap, hstate, hop]

theorem expireStep_of_later {r : TimerRegistry Op} {index : Nat}
    {rest : List Nat} (hheap : r.heap = index :: rest)
    (hstate : (r.node index).state = .pending) {now : Int}
    (hnow : now < (r.node index).expiry) : r.expireStep algorithms now = none := by
  simp [expireStep, hheap, hstate, hnow]

theorem expireStep_of_due {r : TimerRegistry Op} {index : Nat}
    {rest : List Nat} (hheap : r.heap = index :: rest)
    (hstate : (r.node index).state = .pending) {now : Int}
    (hnow : (r.node index).expiry ≤ now) :
    r.expireStep algorithms now =
      some ((r.popHeap algorithms).recycleNode index,
        ⟨true, (r.node index).op, true⟩) := by
  simp [expireStep, hheap, hstate, not_lt.mpr hnow]

theorem lastSample_ge {clock : Nat → Int} (hclock : Monotone clock) :
    ∀ (fuel k : Nat) (r : TimerRegistry Op) (now : Int),
      lastSample algorithms clock fuel k r = some now → clock k ≤ now := by
  intro fuel
  induction fuel with
  | zero =>
      intro k r now hlast
      simp [lastSample] at hlast
  | succ fuel ih =>
      intro k r now hlast
      rw [lastSample] at hlast
      split at hlast
      next =>
        split at hlast
        · simp at hlast
        · exact le_of_eq (Option.some.inj hlast)
      next t out _ =>
        split at hlast
        · obtain rfl := Option.some.inj hlast
          cases hrest : lastSample algorithms clock fuel (k + 1) t with
          | none => simp
          | some later =>
              have hlater := ih (k + 1) t later hrest
              exact (hclock (Nat.le_succ k)).trans (by simpa using hlater)
        · exact ih k t now hlast

theorem Wf.top_least {r : TimerRegistry Op} (hr : Wf r) {index : Nat}
    {rest : List Nat} (hheap : r.heap = index :: rest) {i : Nat} (hi : i ∈ r.heap) :
    (r.node index).expiry ≤ (r.node i).expiry := by
  have hisHeap := hr.isHeap
  rw [hheap] at hisHeap hi
  have htop := hisHeap.head_max (later_strictWeak r) i hi
  simpa [later] using htop

/-- What the loop does, by the nodes it fires: the entries to call back are the
operations of `fired`, which are the due nodes of the heap in the order of their
expiry; the heap keeps the others as they are, and its top is not due. -/
structure Collected (r t : TimerRegistry Op) (ready : List (Op × Bool))
    (last : Option Int) (fired : List Nat) : Prop where
  wf : Wf t
  ready : ready = fired.filterMap fun i => (r.node i).op.map fun op => (op, true)
  nodup : fired.Nodup
  ordered : fired.Pairwise fun i j => (r.node i).expiry ≤ (r.node j).expiry
  pending : ∀ i ∈ fired, i ∈ r.heap ∧ (r.node i).state = .pending
  due : ∀ i ∈ fired, ∃ now, last = some now ∧ (r.node i).expiry ≤ now
  heap : ∀ i ∈ t.heap, i ∈ r.heap ∧ i ∉ fired ∧ t.node i = r.node i
  kept : ∀ i ∈ r.heap, (r.node i).state = .pending → i ∉ fired → i ∈ t.heap
  top : t.heap = [] ∨ ∃ index rest now, t.heap = index :: rest ∧
    last = some now ∧ (t.node index).state = .pending ∧ now < (t.node index).expiry

theorem collected_nil {r : TimerRegistry Op} (hr : Wf r) {last : Option Int}
    (htop : r.heap = [] ∨ ∃ index rest now, r.heap = index :: rest ∧
      last = some now ∧ (r.node index).state = .pending ∧
      now < (r.node index).expiry) : Collected r r [] last [] where
  wf := hr
  ready := rfl
  nodup := .nil
  ordered := .nil
  pending := nofun
  due := nofun
  heap := fun _ hi => ⟨hi, List.not_mem_nil, rfl⟩
  kept := fun _ hi _ _ => hi
  top := htop

section Round

variable {r t u : TimerRegistry Op} {index : Nat} {ready : List (Op × Bool)}
  {last : Option Int} {fired : List Nat}

theorem Recycled.mem_heap_iff (hr : Wf r) (ht : Recycled r t index) (i : Nat) :
    i ∈ t.heap ↔ i ∈ r.heap ∧ i ≠ index := by
  have hnodup := ht.heap.nodup_iff.mpr (List.nodup_append.mp hr.nodup).1
  have hout := (List.nodup_cons.mp hnodup).1
  rw [← ht.heap.mem_iff, List.mem_cons]
  constructor
  · intro hi
    exact ⟨Or.inr hi, fun heq => hout (heq ▸ hi)⟩
  · rintro ⟨rfl | hi, hne⟩
    · exact absurd rfl hne
    · exact hi

theorem Recycled.node_of_mem (hr : Wf r) (ht : Recycled r t index) {i : Nat}
    (hi : i ∈ t.heap) : t.node i = r.node i := by
  rw [ht.node, if_neg ((ht.mem_heap_iff hr i).mp hi).2]

/-- The entries are read from the same nodes after a round that leaves them. -/
theorem Collected.ready_eq (hr : Wf r) (ht : Recycled r t index)
    (hrest : Collected t u ready last fired) :
    ready = fired.filterMap fun i => (r.node i).op.map fun op => (op, true) := by
  rw [hrest.ready]
  refine List.filterMap_congr fun i hi => ?_
  rw [ht.node_of_mem hr (hrest.pending i hi).1]

theorem Collected.ordered_of_recycled (hr : Wf r) (ht : Recycled r t index)
    (hrest : Collected t u ready last fired) :
    fired.Pairwise fun i j => (r.node i).expiry ≤ (r.node j).expiry := by
  refine hrest.ordered.imp_of_mem fun {i j} hi hj hle => ?_
  rwa [ht.node_of_mem hr (hrest.pending i hi).1,
    ht.node_of_mem hr (hrest.pending j hj).1] at hle

/-- A round that removes a cancelled node. -/
theorem Collected.skip (hr : Wf r) (ht : Recycled r t index)
    (hstate : (r.node index).state = .cancelled)
    (hrest : Collected t u ready last fired) : Collected r u ready last fired where
  wf := hrest.wf
  ready := hrest.ready_eq hr ht
  nodup := hrest.nodup
  ordered := hrest.ordered_of_recycled hr ht
  pending := fun i hi => by
    obtain ⟨hheap, hpending⟩ := hrest.pending i hi
    rw [ht.node_of_mem hr hheap] at hpending
    exact ⟨((ht.mem_heap_iff hr i).mp hheap).1, hpending⟩
  due := fun i hi => by
    rw [← ht.node_of_mem hr (hrest.pending i hi).1]
    exact hrest.due i hi
  heap := fun i hi => by
    obtain ⟨hheap, hout, hsame⟩ := hrest.heap i hi
    exact ⟨((ht.mem_heap_iff hr i).mp hheap).1, hout,
      hsame.trans (ht.node_of_mem hr hheap)⟩
  kept := fun i hi hpending hout => by
    have hne : i ≠ index := by
      rintro rfl
      rw [hstate] at hpending
      exact absurd hpending (by decide)
    have hheap := (ht.mem_heap_iff hr i).mpr ⟨hi, hne⟩
    exact hrest.kept i hheap (by rwa [ht.node_of_mem hr hheap]) hout
  top := hrest.top

/-- A round that fires the top, which is due at `now`. -/
theorem Collected.fire (hr : Wf r) (ht : Recycled r t index) {now : Int}
    (htop : ∀ i ∈ r.heap, (r.node index).expiry ≤ (r.node i).expiry)
    (hstate : (r.node index).state = .pending) {op : Op}
    (hop : (r.node index).op = some op) (hnow : (r.node index).expiry ≤ now)
    (hlast : ∀ later, last = some later → now ≤ later)
    (hrest : Collected t u ready last fired) :
    Collected r u ((op, true) :: ready) (some (last.getD now)) (index :: fired) where
  wf := hrest.wf
  ready := by
    rw [List.filterMap_cons, hop, ← hrest.ready_eq hr ht]
    rfl
  nodup := by
    refine List.nodup_cons.mpr ⟨fun hin => ?_, hrest.nodup⟩
    exact ((ht.mem_heap_iff hr index).mp (hrest.pending index hin).1).2 rfl
  ordered := by
    refine List.pairwise_cons.mpr ⟨fun i hi => ?_, hrest.ordered_of_recycled hr ht⟩
    exact htop i ((ht.mem_heap_iff hr i).mp (hrest.pending i hi).1).1
  pending := fun i hi => by
    rcases List.mem_cons.mp hi with rfl | hi
    · exact ⟨ht.heap.mem_iff.mp List.mem_cons_self, hstate⟩
    · obtain ⟨hheap, hpending⟩ := hrest.pending i hi
      rw [ht.node_of_mem hr hheap] at hpending
      exact ⟨((ht.mem_heap_iff hr i).mp hheap).1, hpending⟩
  due := fun i hi => by
    refine ⟨_, rfl, ?_⟩
    rcases List.mem_cons.mp hi with rfl | hi
    · cases hcase : last with
      | none => exact hnow
      | some later => exact hnow.trans (hlast later hcase)
    · obtain ⟨later, hcase, hle⟩ := hrest.due i hi
      rw [ht.node_of_mem hr (hrest.pending i hi).1] at hle
      simpa [hcase] using hle
  heap := fun i hi => by
    obtain ⟨hheap, hout, hsame⟩ := hrest.heap i hi
    obtain ⟨hold, hne⟩ := (ht.mem_heap_iff hr i).mp hheap
    refine ⟨hold, fun hin => ?_, hsame.trans (ht.node_of_mem hr hheap)⟩
    rcases List.mem_cons.mp hin with heq | hin
    · exact hne heq
    · exact hout hin
  kept := fun i hi hpending hout => by
    rw [List.mem_cons, not_or] at hout
    have hheap := (ht.mem_heap_iff hr i).mpr ⟨hi, hout.1⟩
    exact hrest.kept i hheap (by rwa [ht.node_of_mem hr hheap]) hout.2
  top := by
    rcases hrest.top with hnil | ⟨first, others, later, hheap, hcase, hkept⟩
    · exact Or.inl hnil
    · exact Or.inr ⟨first, others, later, hheap, by simp [hcase], hkept⟩

end Round

theorem expireLoop_collected {clock : Nat → Int} (hclock : Monotone clock) :
    ∀ (fuel k : Nat) (r : TimerRegistry Op), Wf r → r.heap.length ≤ fuel →
      ∃ fired, Collected r (expireLoop algorithms clock fuel k r).1
        (expireLoop algorithms clock fuel k r).2
        (lastSample algorithms clock fuel k r) fired := by
  intro fuel
  induction fuel with
  | zero =>
      intro k r hr hfuel
      have hnil := List.length_eq_zero_iff.mp (Nat.le_zero.mp hfuel)
      exact ⟨[], collected_nil hr (Or.inl hnil)⟩
  | succ fuel ih =>
      intro k r hr hfuel
      cases hheap : r.heap with
      | nil =>
          have hnone : r.expireStep algorithms (clock k) = none := by
            simp [expireStep, hheap]
          rw [expireLoop, lastSample, hnone]
          exact ⟨[], collected_nil hr (Or.inl hheap)⟩
      | cons index rest =>
          have hspec := recycleTop_spec algorithms hr hheap
          have hsize : ((r.popHeap algorithms).recycleNode index).heap.length ≤
              fuel := by
            have hlength := hspec.heap.length_eq
            rw [List.length_cons] at hlength
            omega
          rcases hr.queued index (by simp [hheap]) with
            ⟨hstate, hop⟩ | ⟨hstate, _⟩
          · obtain ⟨op, hop⟩ := Option.isSome_iff_exists.mp hop
            by_cases hnow : (r.node index).expiry ≤ clock k
            · obtain ⟨fired, hrest⟩ := ih (k + 1) _ (hspec.wf hr) hsize
              rw [expireLoop, lastSample,
                expireStep_of_due algorithms hheap hstate hnow, hop]
              refine ⟨index :: fired, ?_⟩
              refine Collected.fire hr hspec (fun i hi => hr.top_least hheap hi)
                hstate hop hnow (fun later hlater => ?_) hrest
              exact (hclock (Nat.le_succ k)).trans
                (lastSample_ge algorithms hclock _ _ _ _ hlater)
            · rw [not_le] at hnow
              rw [expireLoop, lastSample,
                expireStep_of_later algorithms hheap hstate hnow]
              refine ⟨[], collected_nil hr (Or.inr ?_)⟩
              exact ⟨index, rest, clock k, hheap, by simp [hheap], hstate, hnow⟩
          · obtain ⟨fired, hrest⟩ := ih k _ (hspec.wf hr) hsize
            rw [expireLoop, lastSample,
              expireStep_of_cancelled algorithms hr hheap hstate]
            exact ⟨fired, hrest.skip hr hspec hstate⟩

/-- More fuel than entries of the heap changes nothing: the loop ends by itself. -/
theorem expireLoop_fuel (clock : Nat → Int) :
    ∀ (fuel more k : Nat) (r : TimerRegistry Op), Wf r → r.heap.length ≤ fuel →
      expireLoop algorithms clock (fuel + more) k r =
        expireLoop algorithms clock fuel k r := by
  intro fuel
  induction fuel with
  | zero =>
      intro more k r hr hfuel
      have hnil := List.length_eq_zero_iff.mp (Nat.le_zero.mp hfuel)
      cases more with
      | zero => rfl
      | succ more => simp [expireLoop, expireStep, hnil]
  | succ fuel ih =>
      intro more k r hr hfuel
      rw [Nat.add_right_comm, expireLoop, expireLoop]
      cases hstep : r.expireStep algorithms (clock k) with
      | none => rfl
      | some result =>
          obtain ⟨t, out⟩ := result
          obtain ⟨index, hspec, _⟩ := expireStep_spec algorithms hr hstep
          have hlength := hspec.heap.length_eq
          rw [List.length_cons] at hlength
          simp only
          rw [ih more _ t (hspec.wf hr) (by omega)]

/-- The nodes fired are the due ones. -/
theorem Collected.mem_fired_iff {r t : TimerRegistry Op} {ready : List (Op × Bool)}
    {last : Option Int} {fired : List Nat} (hrt : Collected r t ready last fired)
    {i : Nat} (hi : i ∈ r.heap) (hstate : (r.node i).state = .pending) :
    i ∈ fired ↔ ∃ now, last = some now ∧ (r.node i).expiry ≤ now := by
  refine ⟨hrt.due i, ?_⟩
  rintro ⟨now, hlast, hdue⟩
  by_contra hout
  have hkept := hrt.kept i hi hstate hout
  rcases hrt.top with hnil | ⟨index, rest, now', hheap, hlast', _, hlater⟩
  · rw [hnil] at hkept
    exact absurd hkept List.not_mem_nil
  · -- The top of what is left is the least, and it is later than the last sample.
    have hleast := hrt.wf.top_least hheap hkept
    rw [(hrt.heap i hkept).2.2] at hleast
    have hsame : now = now' := Option.some.inj (hlast.symm.trans hlast')
    omega

end Loop

end TimerRegistry

/-! ### Timers and their nodes -/

namespace TimerExpiry

open TimerRegistry

/-- What has become of a timer. -/
inductive Status where
  | pending
  | fired
  | cancelled
  | drained
deriving DecidableEq, Repr

/-- A call of `add_timer` with its result. -/
structure Timer where
  expiry : Int
  index : Nat
  token : Nat
  status : Status := .pending
deriving DecidableEq, Repr

/-- A registry with the timers that were added to it, in the order of the calls; the
operation of a timer is its number. -/
structure State where
  registry : TimerRegistry Nat := {}
  timers : List Timer := []
deriving DecidableEq, Repr

inductive Action where
  | addTimer (expiry : Int)
  | cancel (index token : Nat)
  | processExpired (clock : Nat → Int) (hclock : Monotone clock)
  | drainAll

def mark (timers : List Timer) (outcome : Nat → Option Status) : List Timer :=
  timers.mapIdx fun id timer =>
    match outcome id with
    | some status => { timer with status }
    | none => timer

/-- The loop over `ready` at the end of `process_expired`: what it returns. -/
def callBack (ready : List (Nat × Bool)) : Nat :=
  ready.foldl (fun count entry => if entry.2 then count + 1 else count) 0

/-- What the entries of `ready` make of their timers. -/
def calledBack (ready : List (Nat × Bool)) (id : Nat) : Option Status :=
  (ready.lookup id).map fun completed => if completed then .fired else .cancelled

section Machine

variable (algorithms : BinaryHeap.Algorithms Nat)

/-- `add_timer` with the next number as its operation. -/
def State.addTimer (s : State) (expiry : Int) : State × RegisterResult :=
  let (registry, result) :=
    s.registry.addTimer algorithms expiry (some s.timers.length)
  ({ registry
     timers :=
       s.timers ++ [{ expiry, index := result.index, token := result.token }] },
    result)

/-- `cancel`, and the timer it has cancelled. -/
def State.cancel (s : State) (index token : Nat) : State × Option Nat :=
  let (registry, result) := s.registry.cancel index token
  ({ registry
     timers := mark s.timers fun id =>
       if result.op = some id then some .cancelled else none },
    result.op)

/-- The loop of `process_expired`, and the timers to call back. -/
def State.processExpired (s : State) (clock : Nat → Int) :
    State × List (Nat × Bool) :=
  let (registry, ready) := s.registry.processExpired algorithms clock
  ({ registry
     timers := mark s.timers (calledBack ready) },
    ready)

/-- `drain_all`. -/
def State.drainAll (s : State) : State :=
  let (registry, ops) := s.registry.drainAll
  { registry
    timers := mark s.timers fun id => if id ∈ ops then some .drained else none }

def step (s : State) : Action → Option State
  | .addTimer expiry => some (s.addTimer algorithms expiry).1
  | .cancel index token => some (s.cancel index token).1
  | .processExpired clock _ => some (s.processExpired algorithms clock).1
  | .drainAll => some s.drainAll

/-- The calls of a registry under a clock that does not go back.  Callbacks run after
the loop of `process_expired`, so the calls they make are further steps. -/
def machine : TransitionSystem State Action where
  start := {}
  step := step algorithms

/-- `add_timer` is called only when it can name a node. -/
def room (s : State) : Action → Prop
  | .addTimer _ => s.registry.hasRoom = true
  | _ => True

/-- The pending timers that are due at the last sample. -/
def State.due (s : State) (last : Option Int) : List Nat :=
  (List.range s.timers.length).filter fun id =>
    s.timers[id]?.any fun timer =>
      timer.status = .pending && last.any fun now => timer.expiry ≤ now

/-- `process_expired` called with the registry of `s` under `clock`. -/
structure FiresDue (s : State) (clock : Nat → Int) (final : TimerRegistry Nat)
    (ready : List (Nat × Bool)) (last : Option Int) : Prop where
  terminates : ∀ fuel, s.registry.heap.length ≤ fuel →
    expireLoop algorithms clock fuel 0 s.registry = (final, ready)
  fired : (ready.map Prod.fst).Perm (s.due last)
  completed : ∀ entry ∈ ready, entry.2 = true
  ordered : (ready.map Prod.fst).Pairwise fun i j =>
    ∀ a b, s.timers[i]? = some a → s.timers[j]? = some b → a.expiry ≤ b.expiry
  cancelled : ∀ id timer, s.timers[id]? = some timer → timer.status ≠ .pending →
    id ∉ ready.map Prod.fst
  kept : ∀ id timer, s.timers[id]? = some timer → timer.status = .pending →
    id ∉ ready.map Prod.fst → timer.index ∈ final.heap ∧
      final.node timer.index = ⟨timer.expiry, some id, timer.token, .pending⟩
  top : final.heap = [] ∨ ∃ index rest now, final.heap = index :: rest ∧
    last = some now ∧ (final.node index).state = .pending ∧
    now < (final.node index).expiry
  returns : callBack ready = (s.due last).length

/-- Every call of `process_expired` with samples that do not decrease. -/
def FiresExactly (s : State) : Prop :=
  ∀ clock, Monotone clock →
    FiresDue algorithms s clock (s.registry.processExpired algorithms clock).1
      (s.registry.processExpired algorithms clock).2
      (lastSample algorithms clock s.registry.heap.length 0 s.registry)

/-- Every pending timer has its node, and every operation in a node is that of a
pending timer. -/
structure Tracks (s : State) : Prop where
  wf : s.registry.Wf
  here : ∀ id timer, s.timers[id]? = some timer → timer.status = .pending →
    timer.index ∈ s.registry.heap ∧ s.registry.node timer.index =
      ⟨timer.expiry, some id, timer.token, .pending⟩
  named : ∀ index ∈ s.registry.heap, ∀ id,
    (s.registry.node index).op = some id →
    ∃ timer, s.timers[id]? = some timer ∧ timer.status = .pending ∧
      timer.index = index

theorem callBack_eq {ready : List (Nat × Bool)}
    (hcompleted : ∀ entry ∈ ready, entry.2 = true) :
    callBack ready = ready.length := by
  have hcount : ∀ n, ready.foldl
      (fun count entry => if entry.2 then count + 1 else count) n =
        n + ready.length := by
    induction ready with
    | nil => intro n; rfl
    | cons entry ready ih =>
        intro n
        have hfirst := hcompleted entry List.mem_cons_self
        have hrest := ih fun other hother =>
          hcompleted other (List.mem_cons_of_mem _ hother)
        rw [List.foldl_cons, if_pos hfirst, hrest, List.length_cons]
        omega
  exact (hcount 0).trans (Nat.zero_add _)

theorem due_nodup (s : State) (last : Option Int) : (s.due last).Nodup :=
  List.nodup_range.filter _

theorem mem_due_iff {s : State} {last : Option Int} {id : Nat} :
    id ∈ s.due last ↔ ∃ timer now, s.timers[id]? = some timer ∧
      timer.status = .pending ∧ last = some now ∧ timer.expiry ≤ now := by
  simp only [State.due, List.mem_filter, List.mem_range]
  constructor
  · rintro ⟨_, hany⟩
    obtain ⟨timer, htimer, hdue⟩ := (Option.any_eq_true ..).mp hany
    rw [Bool.and_eq_true] at hdue
    obtain ⟨now, hlast, hle⟩ := (Option.any_eq_true ..).mp hdue.2
    exact ⟨timer, now, htimer, of_decide_eq_true hdue.1, hlast, of_decide_eq_true hle⟩
  · rintro ⟨timer, now, htimer, hstatus, rfl, hle⟩
    refine ⟨(List.getElem?_eq_some_iff.mp htimer).1, ?_⟩
    simp [htimer, hstatus, hle]

section Collect

variable {s : State} {t : TimerRegistry Nat} {ready : List (Nat × Bool)}
  {last : Option Int} {fired : List Nat}

theorem ready_ids (hrt : Collected s.registry t ready last fired) :
    ready.map Prod.fst = fired.filterMap fun i => (s.registry.node i).op := by
  rw [hrt.ready, List.map_filterMap]
  simp [Function.comp_def]

/-- The timer of a node that fires. -/
theorem Tracks.timer_of_fired (hs : Tracks s)
    (hrt : Collected s.registry t ready last fired) {i id : Nat} (hi : i ∈ fired)
    (hop : (s.registry.node i).op = some id) :
    ∃ timer, s.timers[id]? = some timer ∧ timer.status = .pending ∧
      timer.index = i ∧ (s.registry.node i).expiry = timer.expiry := by
  obtain ⟨timer, htimer, hstatus, hindex⟩ :=
    hs.named i (hrt.pending i hi).1 id hop
  have hnode := (hs.here id timer htimer hstatus).2
  rw [hindex] at hnode
  exact ⟨timer, htimer, hstatus, hindex, by rw [hnode]⟩

theorem Tracks.mem_ready_iff (hs : Tracks s)
    (hrt : Collected s.registry t ready last fired) {id : Nat} :
    id ∈ ready.map Prod.fst ↔
      ∃ timer, s.timers[id]? = some timer ∧ timer.status = .pending ∧
        timer.index ∈ fired := by
  rw [ready_ids hrt, List.mem_filterMap]
  constructor
  · rintro ⟨i, hi, hop⟩
    obtain ⟨timer, htimer, hstatus, hindex, _⟩ := hs.timer_of_fired hrt hi hop
    exact ⟨timer, htimer, hstatus, hindex ▸ hi⟩
  · rintro ⟨timer, htimer, hstatus, hi⟩
    exact ⟨timer.index, hi, by rw [(hs.here id timer htimer hstatus).2]⟩

theorem Tracks.mem_ready_iff_due (hs : Tracks s)
    (hrt : Collected s.registry t ready last fired) (id : Nat) :
    id ∈ ready.map Prod.fst ↔ id ∈ s.due last := by
  rw [hs.mem_ready_iff hrt, mem_due_iff]
  have hfired : ∀ timer, s.timers[id]? = some timer → timer.status = .pending →
      (timer.index ∈ fired ↔ ∃ now, last = some now ∧ timer.expiry ≤ now) := by
    intro timer htimer hstatus
    obtain ⟨hheap, hnode⟩ := hs.here id timer htimer hstatus
    rw [hrt.mem_fired_iff hheap (by rw [hnode]), hnode]
  constructor
  · rintro ⟨timer, htimer, hstatus, hi⟩
    obtain ⟨now, hlast, hle⟩ := (hfired timer htimer hstatus).mp hi
    exact ⟨timer, now, htimer, hstatus, hlast, hle⟩
  · rintro ⟨timer, now, htimer, hstatus, hlast, hle⟩
    exact ⟨timer, htimer, hstatus, (hfired timer htimer hstatus).mpr ⟨now, hlast, hle⟩⟩

theorem Tracks.ready_nodup (hs : Tracks s)
    (hrt : Collected s.registry t ready last fired) :
    (ready.map Prod.fst).Nodup := by
  rw [ready_ids hrt]
  -- Two nodes with the operation of one timer are the node of that timer.
  have hdistinct : (fired.filterMap fun i => (s.registry.node i).op).Pairwise
      fun a b => a ≠ b := by
    refine List.Pairwise.filterMap (R := fun i j => (i ∈ fired ∧ j ∈ fired) ∧ i ≠ j)
      _ ?_ ?_
    · rintro i j ⟨⟨hi, hj⟩, hne⟩ id hid _ hid' rfl
      obtain ⟨timer, htimer, _, hindex, _⟩ := hs.timer_of_fired hrt hi hid
      obtain ⟨timer', htimer', _, hindex', _⟩ := hs.timer_of_fired hrt hj hid'
      obtain rfl := Option.some.inj (htimer.symm.trans htimer')
      exact hne (hindex.symm.trans hindex')
    · exact List.Pairwise.imp_of_mem (fun hi hj hne => ⟨⟨hi, hj⟩, hne⟩) hrt.nodup
  exact hdistinct

theorem Tracks.ready_ordered (hs : Tracks s)
    (hrt : Collected s.registry t ready last fired) :
    (ready.map Prod.fst).Pairwise fun i j =>
      ∀ a b, s.timers[i]? = some a → s.timers[j]? = some b → a.expiry ≤ b.expiry := by
  rw [ready_ids hrt]
  refine List.Pairwise.filterMap
    (R := fun i j => (i ∈ fired ∧ j ∈ fired) ∧
      (s.registry.node i).expiry ≤ (s.registry.node j).expiry) _ ?_ ?_
  · rintro i j ⟨⟨hi, hj⟩, hle⟩ id hid id' hid' a b ha hb
    obtain ⟨timer, htimer, _, _, hexpiry⟩ := hs.timer_of_fired hrt hi hid
    obtain ⟨timer', htimer', _, _, hexpiry'⟩ := hs.timer_of_fired hrt hj hid'
    obtain rfl := Option.some.inj (htimer.symm.trans ha)
    obtain rfl := Option.some.inj (htimer'.symm.trans hb)
    rwa [hexpiry, hexpiry'] at hle
  · exact List.Pairwise.imp_of_mem (fun hi hj hle => ⟨⟨hi, hj⟩, hle⟩) hrt.ordered

/-- A pending timer that is not collected stays in its node. -/
theorem Tracks.kept (hs : Tracks s)
    (hrt : Collected s.registry t ready last fired) {id : Nat} {timer : Timer}
    (htimer : s.timers[id]? = some timer) (hstatus : timer.status = .pending)
    (hout : id ∉ ready.map Prod.fst) :
    timer.index ∈ t.heap ∧
      t.node timer.index = ⟨timer.expiry, some id, timer.token, .pending⟩ := by
  obtain ⟨hheap, hnode⟩ := hs.here id timer htimer hstatus
  have hmiss : timer.index ∉ fired := fun hi =>
    hout ((hs.mem_ready_iff hrt).mpr ⟨timer, htimer, hstatus, hi⟩)
  have hkept := hrt.kept timer.index hheap (by rw [hnode]) hmiss
  exact ⟨hkept, (hrt.heap timer.index hkept).2.2.trans hnode⟩

end Collect

theorem Tracks.firesExactly {s : State} (hs : Tracks s) :
    FiresExactly algorithms s := by
  intro clock hclock
  obtain ⟨fired, hrt⟩ := expireLoop_collected algorithms hclock
    s.registry.heap.length 0 s.registry hs.wf (Nat.le_refl _)
  have hperm := (List.perm_ext_iff_of_nodup (hs.ready_nodup hrt)
    (due_nodup _ _)).mpr (hs.mem_ready_iff_due hrt)
  have hcompleted : ∀ entry ∈
      (s.registry.processExpired algorithms clock).2, entry.2 = true := by
    intro entry hentry
    have hready := hrt.ready
    rw [show (s.registry.processExpired algorithms clock).2 = _ from hready] at hentry
    obtain ⟨i, _, hmap⟩ := List.mem_filterMap.mp hentry
    obtain ⟨op, _, rfl⟩ := Option.map_eq_some_iff.mp hmap
    rfl
  exact
    { terminates := fun fuel hfuel => by
        obtain ⟨more, rfl⟩ := Nat.exists_eq_add_of_le hfuel
        exact expireLoop_fuel algorithms clock _ more 0 s.registry hs.wf (Nat.le_refl _)
      fired := hperm
      completed := hcompleted
      ordered := hs.ready_ordered hrt
      cancelled := fun id timer htimer hstatus hin => by
        obtain ⟨timer', htimer', hpending, _⟩ := (hs.mem_ready_iff hrt).mp hin
        obtain rfl := Option.some.inj (htimer.symm.trans htimer')
        exact hstatus hpending
      kept := fun id timer htimer hstatus hout => hs.kept hrt htimer hstatus hout
      top := hrt.top
      returns := by
        rw [callBack_eq hcompleted, ← hperm.length_eq, List.length_map]
        rfl }

/-! ### Runs -/

theorem mark_getElem? (timers : List Timer) (outcome : Nat → Option Status)
    (id : Nat) :
    (mark timers outcome)[id]? = timers[id]?.map fun timer =>
      match outcome id with
      | some status => { timer with status }
      | none => timer :=
  List.getElem?_mapIdx

theorem mark_keep {timers : List Timer} {outcome : Nat → Option Status} {id : Nat}
    (hnone : outcome id = none) : (mark timers outcome)[id]? = timers[id]? := by
  rw [mark_getElem?, hnone]
  exact Option.map_id'

/-- A timer that is still pending was not marked. -/
theorem pending_of_mark {timers : List Timer} {outcome : Nat → Option Status}
    (hends : ∀ id, outcome id ≠ some .pending) {id : Nat} {timer : Timer}
    (htimer : (mark timers outcome)[id]? = some timer)
    (hstatus : timer.status = .pending) :
    timers[id]? = some timer ∧ outcome id = none := by
  rw [mark_getElem?] at htimer
  obtain ⟨old, hold, heq⟩ := Option.map_eq_some_iff.mp htimer
  cases hcase : outcome id with
  | none =>
      rw [hcase] at heq
      exact ⟨hold.trans (congrArg some heq), rfl⟩
  | some status =>
      rw [hcase] at heq
      obtain rfl := heq
      exact absurd (hcase.trans (congrArg some hstatus)) (hends id)

theorem start_tracks : Tracks (machine algorithms).start where
  wf := wf_empty
  here := nofun
  named := nofun

/-- Timers end: the others keep their nodes, and no node is left with the operation
of a timer that ended. -/
theorem Tracks.mark {s : State} (hs : Tracks s) {t : TimerRegistry Nat} (hwf : t.Wf)
    {outcome : Nat → Option Status} (hends : ∀ id, outcome id ≠ some .pending)
    (hkeep : ∀ id timer, s.timers[id]? = some timer → timer.status = .pending →
      outcome id = none →
      timer.index ∈ t.heap ∧ t.node timer.index = s.registry.node timer.index)
    (hleft : ∀ index ∈ t.heap, ∀ id, (t.node index).op = some id →
      index ∈ s.registry.heap ∧ (s.registry.node index).op = some id ∧
        outcome id = none) :
    Tracks { registry := t, timers := TimerExpiry.mark s.timers outcome } where
  wf := hwf
  here := fun id timer htimer hstatus => by
    obtain ⟨hold, hnone⟩ := pending_of_mark hends htimer hstatus
    obtain ⟨hheap, hsame⟩ := hkeep id timer hold hstatus hnone
    exact ⟨hheap, hsame.trans (hs.here id timer hold hstatus).2⟩
  named := fun index hindex id hop => by
    obtain ⟨hheap, hold, hnone⟩ := hleft index hindex id hop
    rw [mark_keep hnone]
    exact hs.named index hheap id hold

theorem addTimer_tracks {s : State} (hs : Tracks s) (expiry : Int)
    (hroom : s.registry.hasRoom = true) :
    Tracks (s.addTimer algorithms expiry).1 := by
  obtain ⟨hadded, htoken⟩ :=
    addTimer_spec algorithms hs.wf hroom expiry (some s.timers.length)
  simp only [State.addTimer]
  generalize s.registry.addTimer algorithms expiry (some s.timers.length) = added at *
  have hfresh : added.2.index ∉ s.registry.heap := fun hin =>
    (List.nodup_cons.mp hadded.nodup).1 (List.mem_append_left _ hin)
  refine ⟨hadded.wf hs.wf, ?_, ?_⟩
  · intro id timer htimer hstatus
    rw [hadded.heap.mem_iff, hadded.node]
    rcases Nat.lt_or_ge id s.timers.length with hlt | hge
    · rw [List.getElem?_append_left hlt] at htimer
      obtain ⟨hheap, hnode⟩ := hs.here id timer htimer hstatus
      have hne : timer.index ≠ added.2.index := fun heq => hfresh (heq ▸ hheap)
      rw [if_neg hne]
      exact ⟨List.mem_append_left _ hheap, hnode⟩
    · obtain rfl : id = s.timers.length := by
        have hlt := (List.getElem?_eq_some_iff.mp htimer).1
        rw [List.length_append, List.length_singleton] at hlt
        omega
      rw [List.getElem?_concat_length] at htimer
      obtain rfl := Option.some.inj htimer
      rw [if_pos rfl, htoken]
      exact ⟨List.mem_append_right _ List.mem_cons_self, rfl⟩
  · intro index hindex id hop
    rw [hadded.node] at hop
    split at hop
    next heq =>
      obtain rfl : s.timers.length = id := Option.some.inj hop
      exact ⟨_, List.getElem?_concat_length, rfl, heq.symm⟩
    next hne =>
      have hold : index ∈ s.registry.heap := by
        rcases List.mem_append.mp (hadded.heap.mem_iff.mp hindex) with hold | hnew
        · exact hold
        · exact absurd (List.mem_singleton.mp hnew) hne
      obtain ⟨timer, htimer, hrest⟩ := hs.named index hold id hop
      refine ⟨timer, ?_, hrest⟩
      rwa [List.getElem?_append_left (List.getElem?_eq_some_iff.mp htimer).1]

theorem cancel_tracks {s : State} (hs : Tracks s) (index token : Nat) :
    Tracks (s.cancel index token).1 := by
  simp only [State.cancel]
  refine hs.mark (cancel_wf hs.wf index token) (fun id => by split <;> simp) ?_ ?_
  · intro id timer htimer hstatus hnone
    obtain ⟨hheap, hnode⟩ := hs.here id timer htimer hstatus
    rw [cancel_eq] at hnone ⊢
    split at hnone
    next hmatch =>
      rw [if_pos hmatch]
      -- The node that is cancelled is not the one of this timer.
      have hne : timer.index ≠ index := by
        rintro rfl
        simp [hnode] at hnone
      exact ⟨hheap, by rw [node_setNode hmatch.2.1, if_neg hne]⟩
    next hmiss =>
      rw [if_neg hmiss]
      exact ⟨hheap, rfl⟩
  · intro i hi id hop
    rw [cancel_eq] at hi hop ⊢
    split at hop
    next hmatch =>
      rw [if_pos hmatch] at hi ⊢
      rw [node_setNode hmatch.2.1] at hop
      split at hop
      · simp at hop
      next hne =>
        refine ⟨hi, hop, if_neg fun hsame => hne ?_⟩
        -- One operation is in one node only.
        obtain ⟨timer, htimer, _, hindex⟩ := hs.named i hi id hop
        obtain ⟨timer', htimer', _, hindex'⟩ := hs.named index
          (hs.wf.mem_heap_of_pending hmatch.2.1 hmatch.2.2.2) id hsame
        obtain rfl := Option.some.inj (htimer.symm.trans htimer')
        exact hindex.symm.trans hindex'
    next hmiss =>
      rw [if_neg hmiss] at hi ⊢
      exact ⟨hi, hop, by simp⟩

theorem calledBack_ends (ready : List (Nat × Bool)) (id : Nat) :
    calledBack ready id ≠ some .pending := by
  intro hpending
  obtain ⟨completed, _, hstatus⟩ := Option.map_eq_some_iff.mp hpending
  split at hstatus <;> exact absurd hstatus (by decide)

theorem calledBack_eq_none {ready : List (Nat × Bool)} {id : Nat} :
    calledBack ready id = none ↔ id ∉ ready.map Prod.fst := by
  rw [calledBack, Option.map_eq_none_iff, List.lookup_eq_none_iff, List.mem_map]
  constructor
  · rintro hnone ⟨entry, hentry, rfl⟩
    simpa using hnone entry hentry
  · intro hout entry hentry
    simpa using fun heq => hout ⟨entry, hentry, heq.symm⟩

theorem processExpired_tracks {s : State} (hs : Tracks s) {clock : Nat → Int}
    (hclock : Monotone clock) :
    Tracks (s.processExpired algorithms clock).1 := by
  obtain ⟨fired, hrt⟩ := expireLoop_collected algorithms hclock
    s.registry.heap.length 0 s.registry hs.wf (Nat.le_refl _)
  refine hs.mark hrt.wf (calledBack_ends _) ?_ ?_
  · intro id timer htimer hstatus hnone
    have hout := calledBack_eq_none.mp hnone
    obtain ⟨hheap, hnode⟩ := hs.kept hrt htimer hstatus hout
    exact ⟨hheap, hnode.trans (hs.here id timer htimer hstatus).2.symm⟩
  · intro index hindex id hop
    obtain ⟨hheap, hmiss, hsame⟩ := hrt.heap index hindex
    have hold : (s.registry.node index).op = some id := hsame ▸ hop
    refine ⟨hheap, hold, calledBack_eq_none.mpr fun hin => ?_⟩
    obtain ⟨timer, htimer, _, hfired⟩ := (hs.mem_ready_iff hrt).mp hin
    obtain ⟨timer', htimer', _, hindex'⟩ := hs.named index hheap id hold
    obtain rfl := Option.some.inj (htimer.symm.trans htimer')
    exact hmiss (hindex' ▸ hfired)

theorem drainAll_tracks {s : State} (hs : Tracks s) : Tracks s.drainAll := by
  have hheap : s.registry.drainAll.1.heap = [] := by
    unfold TimerRegistry.drainAll
    split
    next hempty =>
      refine List.eq_nil_iff_forall_not_mem.mpr fun i hi => ?_
      have hlt := hs.wf.bound i (List.mem_append_left _ hi)
      simp [List.isEmpty_iff.mp hempty] at hlt
    next => rfl
  simp only [State.drainAll]
  refine hs.mark (drainAll_wf hs.wf) (fun id => by split <;> simp) ?_ ?_
  · intro id timer htimer hstatus hnone
    obtain ⟨hold, hnode⟩ := hs.here id timer htimer hstatus
    have hlt := hs.wf.bound _ (List.mem_append_left _ hold)
    have hdrained : id ∈ s.registry.drainAll.2 := by
      have hne : s.registry.nodes.isEmpty = false := by
        cases hnodes : s.registry.nodes with
        | nil => simp [hnodes] at hlt
        | cons _ _ => rfl
      simp only [TimerRegistry.drainAll, hne, Bool.false_eq_true, if_false, List.mem_flatMap]
      refine ⟨s.registry.node timer.index, ?_, by simp [hnode]⟩
      rw [TimerRegistry.node, List.getD_eq_getElem _ _ hlt]
      exact List.getElem_mem hlt
    rw [if_pos hdrained] at hnone
    exact absurd hnone (by simp)
  · intro index hindex
    rw [hheap] at hindex
    exact absurd hindex List.not_mem_nil

theorem step_tracks {s t : State} {a : Action} (hs : Tracks s) (hroom : room s a)
    (hstep : (machine algorithms).step s a = some t) : Tracks t := by
  cases a with
  | addTimer expiry =>
      exact Option.some.inj hstep ▸ addTimer_tracks algorithms hs expiry hroom
  | cancel index token => exact Option.some.inj hstep ▸ cancel_tracks hs index token
  | processExpired clock hclock =>
      exact Option.some.inj hstep ▸ processExpired_tracks algorithms hs hclock
  | drainAll => exact Option.some.inj hstep ▸ drainAll_tracks hs

/-- As long as `add_timer` can name its nodes, `process_expired` fires the due timers
and no others, in the order of their expiry. -/
theorem firesExactly_of_room {s : State}
    (hs : (machine algorithms).ReachableUnder room s) : FiresExactly algorithms s :=
  (hs.invariant (start_tracks algorithms)
    fun _ _ _ hinv hroom hstep => step_tracks algorithms hinv hroom hstep
      : Tracks s).firesExactly algorithms

end Machine

instance (s : State) : ∀ a, Decidable (room s a)
  | .addTimer _ => inferInstanceAs (Decidable (_ = true))
  | .cancel _ _ | .processExpired _ _ | .drainAll => .isTrue trivial

/-- Three timers, of which one was cancelled: the last one is due first. -/
theorem firesExactly_threeTimers :
    ∃ s, (machine (BinaryHeap.sorted Nat)).ReachableUnder room s ∧
      (FiresExactly (BinaryHeap.sorted Nat) s ∧
        s.due (some 5) = [0, 2] ∧
        (s.registry.processExpired (BinaryHeap.sorted Nat) fun _ => 5).2 =
          [(2, true), (0, true)]) := by
  obtain ⟨s, hs, hcheck⟩ :=
    (machine (BinaryHeap.sorted Nat)).exists_reachableUnder_of_execUnder room
      [.addTimer 5, .addTimer 1, .addTimer 3, .cancel 1 1]
      (fun s => decide (s.due (some 5) = [0, 2] ∧
        (s.registry.processExpired (BinaryHeap.sorted Nat) fun _ => 5).2 =
          [(2, true), (0, true)]))
      (by decide)
  exact ⟨s, hs, firesExactly_of_room _ hs, of_decide_eq_true hcheck⟩

/-! ### Running out of indices -/

section Wrap

variable (algorithms : BinaryHeap.Algorithms Nat)

/-- Timers `0, …, n - 1` were added for time `0`, and nothing else was done. -/
structure Filled (s : State) (n : Nat) : Prop where
  nodes : s.registry.nodes = filled n
  free : s.registry.free = []
  length : s.timers.length = n
  pending : ∀ timer ∈ s.timers, timer.expiry = 0 ∧ timer.status = .pending

theorem Filled.addTimer {s : State} {n : Nat} (hs : Filled s n) (hn : n < 2 ^ 32) :
    Filled (s.addTimer algorithms 0).1 (n + 1) ∧
      (s.addTimer algorithms 0).2 = { index := n, token := 1 } := by
  have hlength : s.registry.nodes.length = n := by
    rw [hs.nodes, filled, List.length_map, List.length_range]
  obtain ⟨hnodes, hfree, hresult⟩ :=
    addTimer_of_free_nil algorithms hs.free (by omega) s.timers.length
  refine ⟨⟨?_, hfree, ?_, ?_⟩, hlength ▸ hresult⟩
  · rw [filled_succ, ← hs.nodes, ← hs.length]
    exact hnodes
  · simp [State.addTimer, hs.length]
  · intro timer htimer
    rcases List.mem_append.mp htimer with hold | hnew
    · exact hs.pending timer hold
    · rw [List.mem_singleton.mp hnew]
      exact ⟨rfl, rfl⟩

theorem exists_reachable_filled (n : Nat) (hn : n ≤ 2 ^ 32) :
    ∃ s, (machine algorithms).Reachable s ∧ Filled s n := by
  induction n with
  | zero => exact ⟨{}, .start, ⟨rfl, rfl, rfl, nofun⟩⟩
  | succ n ih =>
      obtain ⟨s, hs, hfilled⟩ := ih (by omega)
      exact ⟨_, .step (a := .addTimer 0) hs trivial rfl,
        (hfilled.addTimer algorithms (by omega)).1⟩

theorem expireStep_op {r t : TimerRegistry Nat} {now : Int} {out : Expired Nat}
    (hstep : r.expireStep algorithms now = some (t, out)) :
    out.op = none ∨ ∃ i, out.op = (r.node i).op := by
  unfold expireStep at hstep
  split at hstep
  · simp at hstep
  next index rest _ =>
    simp only at hstep
    split at hstep
    · obtain rfl := (Prod.mk.inj (Option.some.inj hstep)).2
      exact Or.inr ⟨index, rfl⟩
    · split at hstep
      · simp at hstep
      · split at hstep
        · obtain rfl := (Prod.mk.inj (Option.some.inj hstep)).2
          exact Or.inl rfl
        · obtain rfl := (Prod.mk.inj (Option.some.inj hstep)).2
          exact Or.inr ⟨index, rfl⟩

/-- A heap whose top is not a cancelled node makes the loop look at the clock. -/
theorem lastSample_isSome (clock : Nat → Int) (fuel k : Nat) {r : TimerRegistry Nat}
    {index : Nat} {rest : List Nat} (hheap : r.heap = index :: rest)
    (hstate : (r.node index).state ≠ .cancelled) :
    ∃ now, lastSample algorithms clock (fuel + 1) k r = some now := by
  rw [lastSample]
  cases hstep : r.expireStep algorithms (clock k) with
  | none => exact ⟨clock k, by simp [hheap]⟩
  | some result =>
      obtain ⟨t, out⟩ := result
      have hsampled : out.sampled = true := by
        simp only [expireStep, hheap, hstate, if_false] at hstep
        split at hstep
        · simp at hstep
        · split at hstep
          · obtain rfl := (Prod.mk.inj (Option.some.inj hstep)).2
            rfl
          · obtain rfl := (Prod.mk.inj (Option.some.inj hstep)).2
            rfl
      exact ⟨_, if_pos hsampled⟩

/-- What the loop calls back was stored in some node. -/
theorem mem_ready_stored (clock : Nat → Int) (fuel k : Nat) {r : TimerRegistry Nat}
    (hr : NodesOk r) {id : Nat}
    (hid : id ∈ (expireLoop algorithms clock fuel k r).2.map Prod.fst) :
    ∃ i, (r.node i).op = some id := by
  induction fuel generalizing k r with
  | zero => simp [expireLoop] at hid
  | succ fuel ih =>
      rw [expireLoop] at hid
      cases hstep : r.expireStep algorithms (clock k) with
      | none => simp [hstep] at hid
      | some result =>
          obtain ⟨t, out⟩ := result
          obtain ⟨honly, ht⟩ := expireStep_onlyRemoves algorithms hr hstep
          rw [hstep] at hid
          simp only [List.map_append, List.mem_append] at hid
          rcases hid with hnow | hlater
          · have hop : out.op = some id := by
              cases hout : out.op <;> simp_all
            rcases expireStep_op algorithms hstep with hnone | ⟨i, hi⟩
            · rw [hnone] at hop
              exact absurd hop (by simp)
            · exact ⟨i, hi.symm.trans hop⟩
          · obtain ⟨i, hi⟩ := ih _ ht hlater
            exact ⟨i, (honly i id hi).1⟩

end Wrap

theorem filled_node {r : TimerRegistry Nat} {n : Nat} (hnodes : r.nodes = filled n)
    (i : Nat) : (r.node i).state = .pending ∧ (r.node i).token = 1 := by
  unfold TimerRegistry.node
  rw [hnodes]
  by_cases hi : i < n
  · rw [filled_getD hi]
    exact ⟨rfl, rfl⟩
  · rw [List.getD_eq_default _ _ (by simpa [filled] using hi)]
    exact ⟨rfl, rfl⟩

/-- The registry after one timer too many. -/
def overfull (r : TimerRegistry Nat) : TimerRegistry Nat :=
  (r.addTimer (BinaryHeap.sorted Nat) 0 (some (2 ^ 32))).1

theorem overfull_not_ready {r : TimerRegistry Nat} (hfree : r.free = [])
    (hnodes : r.nodes = filled (2 ^ 32)) (clock : Nat → Int) (fuel : Nat) :
    0 ∉ (expireLoop (BinaryHeap.sorted Nat) clock fuel 0 (overfull r)).2.map
      Prod.fst := by
  intro hready
  have hok : NodesOk r := fun i =>
    ⟨by rw [(filled_node hnodes i).2]; decide, fun _ => (filled_node hnodes i).1⟩
  obtain ⟨i, hi⟩ := mem_ready_stored _ clock fuel 0
    (addTimer_nodesOk _ hok 0 (some (2 ^ 32))) hready
  have hlt : i < (overfull r).nodes.length := by
    by_contra hout
    have hdefault : (overfull r).node i = {} :=
      List.getD_eq_default _ _ (not_lt.mp hout)
    change ((overfull r).node i).op = some 0 at hi
    rw [hdefault] at hi
    exact absurd hi (by simp)
  have hpos := Inventory.held_pos (f := fun node : TimerNode Nat => node.op.toList)
    (x := 0) (List.getElem?_eq_getElem hlt) (by
      change ((overfull r).node i).op = some 0 at hi
      rw [TimerRegistry.node, List.getD_eq_getElem _ _ hlt] at hi
      simp [hi])
  have hnone : (overfull r).held 0 = 0 := addTimer_of_full_held _ hfree hnodes
  exact absurd hnone (Nat.pos_iff_ne_zero.mp hpos)

theorem overfull_samples {r : TimerRegistry Nat} (hnodes : r.nodes = filled (2 ^ 32))
    (clock : Nat → Int) :
    ∃ now, lastSample (BinaryHeap.sorted Nat) clock (overfull r).heap.length 0
      (overfull r) = some now := by
  have hlength : 0 < (overfull r).heap.length := by
    change 0 < (List.insertionSort _ _).length
    rw [List.length_insertionSort, List.length_append]
    exact Nat.succ_pos _
  cases hheap : (overfull r).heap with
  | nil => simp [hheap] at hlength
  | cons index rest =>
      refine lastSample_isSome _ clock rest.length 0 hheap ?_
      have hpending : ((overfull r).node index).state = .pending := by
        rcases (addTimer_node (BinaryHeap.sorted Nat) r 0 (some (2 ^ 32)) index).2
          with hsame | ⟨_, hnew⟩
        · exact (congrArg TimerNode.state hsame).trans (filled_node hnodes index).1
        · exact congrArg TimerNode.state hnew
      rw [hpending]
      decide

/-- With `2 ^ 32` timers pending the next one takes the node of timer `0`, which is
due and is never called back. -/
theorem not_firesExactly_fullIndex :
    ¬ ∀ s, (machine (BinaryHeap.sorted Nat)).Reachable s →
      FiresExactly (BinaryHeap.sorted Nat) s := by
  intro hall
  obtain ⟨s, hs, hnodes, hfree, htimers, hpending⟩ :=
    exists_reachable_filled (BinaryHeap.sorted Nat) (2 ^ 32) (Nat.le_refl _)
  obtain ⟨t, ht, hregistry, new, htimers'⟩ :
      ∃ t, (machine (BinaryHeap.sorted Nat)).Reachable t ∧
        t.registry = overfull s.registry ∧ ∃ new, t.timers = s.timers ++ [new] := by
    refine ⟨_, .step (a := .addTimer 0) hs trivial rfl, ?_, _, rfl⟩
    rw [overfull, ← htimers]
    rfl
  have hfired := (hall t ht (fun _ => 0) monotone_const).fired
  rw [hregistry] at hfired
  obtain ⟨now, hnow⟩ := overfull_samples hnodes fun _ => 0
  have hfirst : 0 < s.timers.length := by omega
  obtain ⟨hexpiry, hstatus⟩ := hpending _ (List.getElem_mem hfirst)
  refine overfull_not_ready hfree hnodes (fun _ => 0) _ (hfired.mem_iff.mpr ?_)
  rw [hnow]
  refine mem_due_iff.mpr ⟨s.timers[0], now, ?_, hstatus, rfl, ?_⟩
  · rw [htimers', List.getElem?_append_left hfirst]
    exact List.getElem?_eq_getElem hfirst
  · rw [hexpiry]
    exact lastSample_ge _ monotone_const _ _ _ _ hnow

end TimerExpiry

end Iocoro
