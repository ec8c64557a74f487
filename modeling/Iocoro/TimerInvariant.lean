/-
The accounts of `timer_registry`: every node is in the heap or on the free list, once,
and the count is the length of the heap.  The rest of the invariant is that of the
registry's own module; here it is carried through sequences of calls and through the
rounds of `process_expired`.
-/
import Mathlib.Data.List.Induction
import Iocoro.TimerRegistry

universe u

namespace Iocoro

namespace TimerRegistry

variable {Op : Type u}

inductive Call (Op : Type u) : Type u
  | addTimer (expiry : Int) (op : Op)
  | cancel (index token : Nat)
  | nextTimeout (now : Int)
  | processExpired (clock : Nat → Int)
  | drainAll

/-- A well-formed registry that has lost no node and counts those in the heap. -/
structure Exact (r : TimerRegistry Op) : Prop extends Wf r where
  covers : ∀ i < r.nodes.length, i ∈ r.heap ++ r.free
  count : r.activeCount = r.heap.length

namespace Exact

variable {r : TimerRegistry Op}

theorem empty : Exact ({} : TimerRegistry Op) where
  toWf := wf_empty
  covers := nofun
  count := rfl

theorem indices (hr : Exact r) :
    (r.heap ++ r.free).Perm (List.range r.nodes.length) := by
  rw [List.perm_ext_iff_of_nodup hr.nodup List.nodup_range]
  intro i
  rw [List.mem_range]
  exact ⟨hr.bound i, hr.covers i⟩

theorem heap_length_le (hr : Exact r) : r.heap.length ≤ 2 ^ 32 := by
  have hlength := hr.indices.length_eq
  have hsize := hr.size
  rw [List.length_append, List.length_range] at hlength
  omega

end Exact

theorem cancel_exact {r : TimerRegistry Op} (hr : Exact r) (index token : Nat) :
    Exact (r.cancel index token).1 := by
  have hwf := cancel_wf hr.toWf index token
  rw [cancel_eq] at hwf ⊢
  split
  next hmatch =>
    rw [if_pos hmatch] at hwf
    exact {
      toWf := hwf
      covers := by simpa [setNode] using hr.covers
      count := hr.count }
  next => exact hr

theorem drainAll_exact {r : TimerRegistry Op} (hr : Exact r)
    (hfew : r.nodes.length < 2 ^ 32) : Exact r.drainAll.1 := by
  have hwf := drainAll_wf hr.toWf
  rw [drainAll] at hwf ⊢
  split
  · exact hr
  next hempty =>
    rw [if_neg hempty] at hwf
    exact {
      toWf := hwf
      covers := by
        intro i hi
        rw [FixedWidth.truncate_of_lt hfew]
        simpa using hi
      count := rfl }

section Heap

variable (algorithms : BinaryHeap.Algorithms Nat)

def Call.apply (r : TimerRegistry Op) : Call Op → TimerRegistry Op
  | addTimer expiry op => (r.addTimer algorithms expiry (some op)).1
  | cancel index token => (r.cancel index token).1
  | nextTimeout _ => r
  | processExpired clock => (r.processExpired algorithms clock).1
  | drainAll => r.drainAll.1

/-- A sequence of calls, from an empty registry. -/
def run (calls : List (Call Op)) : TimerRegistry Op :=
  calls.foldl (Call.apply algorithms) {}

/-- The states at the head of the loop of `process_expired`. -/
def rounds (clock : Nat → Int) :
    Nat → Nat → TimerRegistry Op → List (TimerRegistry Op)
  | 0, _, r => [r]
  | fuel + 1, k, r =>
      match r.expireStep algorithms (clock k) with
      | none => [r]
      | some (t, out) =>
          r :: rounds clock fuel (if out.sampled then k + 1 else k) t

/-- The free list loses the node, or there was none and the node is new. -/
theorem allocate_free {r : TimerRegistry Op} (hfew : r.hasRoom = true) :
    r.allocate.1.nodes.length = r.nodes.length ∧
        r.free = r.allocate.1.free ++ [r.allocate.2] ∨
      r.allocate.1.nodes.length = r.nodes.length + 1 ∧
        r.allocate.2 = r.nodes.length ∧ r.allocate.1.free = r.free := by
  rw [allocate]
  cases hlast : r.free.getLast? with
  | some index =>
      exact .inl ⟨rfl, (List.dropLast_append_getLast? index hlast).symm⟩
  | none =>
      have hfree : r.free = [] := List.getLast?_eq_none_iff.mp hlast
      have hlt : r.nodes.length < 2 ^ 32 := by simpa [hasRoom, hfree] using hfew
      exact .inr ⟨List.length_append, FixedWidth.truncate_of_lt hlt, rfl⟩

theorem addTimer_exact {r : TimerRegistry Op} (hr : Exact r)
    (hroom : r.hasRoom = true) (expiry : Int) (op : Op) :
    Exact (r.addTimer algorithms expiry (some op)).1 := by
  have hspec := (addTimer_spec algorithms hr.toWf hroom expiry (some op)).1
  have hperm := hspec.heap
  refine { toWf := hspec.wf hr.toWf, covers := ?_, count := ?_ }
  · intro i hi
    have hlength : (r.addTimer algorithms expiry (some op)).1.nodes.length =
        r.allocate.1.nodes.length := List.length_set
    have hfree : (r.addTimer algorithms expiry (some op)).1.free =
        r.allocate.1.free := rfl
    have hindex : (r.addTimer algorithms expiry (some op)).2.index =
        r.allocate.2 := rfl
    rw [hlength] at hi
    rw [hfree, List.mem_append, hperm.mem_iff, List.mem_append, hindex,
      List.mem_singleton]
    obtain ⟨hsame, hlast⟩ | ⟨hnew, hlast, hsame⟩ := allocate_free hroom
    · have hold := hr.covers i (hsame ▸ hi)
      rw [hlast, ← List.append_assoc, List.mem_append, List.mem_append,
        List.mem_singleton] at hold
      obtain (hheap | hkept) | heq := hold
      · exact .inl (.inl hheap)
      · exact .inr hkept
      · exact .inl (.inr heq)
    · by_cases heq : i = r.nodes.length
      · exact .inl (.inr (heq.trans hlast.symm))
      · have hold := hr.covers i (by omega)
        rw [List.mem_append] at hold
        obtain hheap | hkept := hold
        · exact .inl (.inl hheap)
        · exact .inr (hsame ▸ hkept)
  · have hcount : (r.addTimer algorithms expiry (some op)).1.activeCount =
        FixedWidth.incr 64 r.allocate.1.activeCount := rfl
    have hallocate : r.allocate.1.activeCount = r.activeCount := by
      rw [allocate]
      split <;> rfl
    have hle := hr.heap_length_le
    have hlength := hperm.length_eq
    rw [List.length_append, List.length_singleton] at hlength
    rw [hcount, hallocate, hr.count, hlength]
    exact FixedWidth.incr_of_lt (by omega)

/-- A round that does not leave the loop recycles the top of the heap. -/
theorem expireStep_recycles {r t : TimerRegistry Op} {now : Int} {out : Expired Op}
    (hstep : r.expireStep algorithms now = some (t, out)) :
    ∃ index rest, r.heap = index :: rest ∧
      t = (r.popHeap algorithms).recycleNode index := by
  rw [expireStep] at hstep
  split at hstep
  next => nomatch hstep
  next index rest hheap =>
    refine ⟨index, rest, hheap, ?_⟩
    simp only at hstep
    split at hstep
    · cases hstep
      rfl
    · split at hstep
      · nomatch hstep
      · split at hstep
        · cases hstep
          rfl
        · cases hstep
          rfl

theorem expireStep_exact {r t : TimerRegistry Op} (hr : Exact r) {now : Int}
    {out : Expired Op} (hstep : r.expireStep algorithms now = some (t, out)) :
    Exact t := by
  obtain ⟨index, rest, hheap, rfl⟩ := expireStep_recycles algorithms hstep
  have hspec := recycleTop_spec algorithms hr.toWf hheap
  have hlength := hspec.heap.length_eq
  rw [List.length_cons] at hlength
  have hcount := hr.count
  have hle := hr.heap_length_le
  refine { toWf := hspec.wf hr.toWf, covers := ?_, count := ?_ }
  · intro i hi
    have hold := hr.covers i (hspec.size ▸ hi)
    rw [hspec.free, ← List.append_assoc, List.mem_append, List.mem_append,
      List.mem_singleton]
    obtain hqueued | hfree := List.mem_append.mp hold
    · obtain heq | hkept := List.mem_cons.mp (hspec.heap.mem_iff.mpr hqueued)
      · exact .inr heq
      · exact .inl (.inl hkept)
    · exact .inl (.inr hfree)
  · have hactive : ((r.popHeap algorithms).recycleNode index).activeCount =
        FixedWidth.decr 64 r.activeCount :=
      if_pos (show 0 < r.activeCount by omega)
    rw [hactive, FixedWidth.decr_of_pos (by omega) (by omega)]
    omega

/-- Each round keeps the accounts, and the loop leaves the registry as its last round
found it. -/
theorem expireLoop_rounds (clock : Nat → Int) :
    ∀ (fuel k : Nat) (r : TimerRegistry Op), Exact r →
      (∀ t ∈ rounds algorithms clock fuel k r, Exact t) ∧
      (expireLoop algorithms clock fuel k r).1 ∈ rounds algorithms clock fuel k r
  | 0, _, r, hr => by
      refine ⟨fun t ht => ?_, List.mem_singleton_self r⟩
      exact List.mem_singleton.mp ht ▸ hr
  | fuel + 1, k, r, hr => by
      rw [rounds, expireLoop]
      cases hstep : r.expireStep algorithms (clock k) with
      | none =>
          refine ⟨fun t ht => ?_, List.mem_singleton_self r⟩
          exact List.mem_singleton.mp ht ▸ hr
      | some result =>
          obtain ⟨s, out⟩ := result
          obtain ⟨hall, hlast⟩ := expireLoop_rounds clock fuel
            (if out.sampled then k + 1 else k) s (expireStep_exact algorithms hr hstep)
          refine ⟨fun t ht => ?_, List.mem_cons_of_mem _ hlast⟩
          obtain rfl | hlater := List.mem_cons.mp ht
          · exact hr
          · exact hall t hlater

/-! ### The table never shrinks -/

theorem expireLoop_nodes (clock : Nat → Int) :
    ∀ (fuel k : Nat) (r : TimerRegistry Op),
      (expireLoop algorithms clock fuel k r).1.nodes.length = r.nodes.length
  | 0, _, _ => rfl
  | fuel + 1, k, r => by
      rw [expireLoop]
      cases hstep : r.expireStep algorithms (clock k) with
      | none => rfl
      | some result =>
          obtain ⟨s, out⟩ := result
          obtain ⟨index, -, -, rfl⟩ := expireStep_recycles algorithms hstep
          exact (expireLoop_nodes clock fuel _ _).trans List.length_set

theorem Call.nodes_le (r : TimerRegistry Op) (call : Call Op) :
    r.nodes.length ≤ (call.apply algorithms r).nodes.length := by
  cases call with
  | addTimer expiry op =>
      have hlength : (r.addTimer algorithms expiry (some op)).1.nodes.length =
          r.allocate.1.nodes.length := List.length_set
      rw [apply, hlength, allocate]
      split
      · exact Nat.le_refl _
      · rw [List.length_append]
        exact Nat.le_add_right _ _
  | cancel index token =>
      rw [apply, cancel_eq]
      split
      · exact Nat.le_of_eq List.length_set.symm
      · exact Nat.le_refl _
  | nextTimeout now => exact Nat.le_refl _
  | processExpired clock =>
      exact Nat.le_of_eq (expireLoop_nodes algorithms clock _ _ r).symm
  | drainAll =>
      rw [apply, TimerRegistry.drainAll]
      split
      · exact Nat.le_refl _
      · exact Nat.le_of_eq (List.length_map _).symm

/-! ### Runs -/

theorem Call.exact (call : Call Op) {r : TimerRegistry Op} (hr : Exact r)
    (hfew : (call.apply algorithms r).nodes.length < 2 ^ 32) :
    Exact (call.apply algorithms r) := by
  have hle := call.nodes_le algorithms r
  cases call with
  | addTimer expiry op =>
      refine addTimer_exact algorithms hr ?_ expiry op
      rw [hasRoom, decide_eq_true (show r.nodes.length < 2 ^ 32 by omega), Bool.or_true]
  | cancel index token => exact cancel_exact hr index token
  | nextTimeout now => exact hr
  | processExpired clock =>
      obtain ⟨hall, hlast⟩ := expireLoop_rounds algorithms clock r.heap.length 0 r hr
      exact hall _ hlast
  | drainAll => exact drainAll_exact hr (by omega)

theorem run_append (calls : List (Call Op)) (call : Call Op) :
    run algorithms (calls ++ [call]) =
      call.apply algorithms (run algorithms calls) := by
  rw [run, List.foldl_append]
  rfl

theorem run_exact (calls : List (Call Op))
    (hfew : (run algorithms calls).nodes.length < 2 ^ 32) :
    Exact (run algorithms calls) := by
  induction calls using List.reverseRecOn with
  | nil => exact .empty
  | append_singleton calls call ih =>
      rw [run_append] at hfew ⊢
      have hle := call.nodes_le algorithms (run algorithms calls)
      exact call.exact algorithms (ih (by omega)) hfew

/-- What the fields of the registry say of each other. -/
structure Represented (r : TimerRegistry Op) : Prop where
  indices : (r.heap ++ r.free).Perm (List.range r.nodes.length)
  count : r.activeCount = r.heap.length
  isEmpty_iff : r.isEmpty = true ↔ r.heap = []
  isHeap : BinaryHeap.IsHeap r.later r.heap
  queued : ∀ i ∈ r.heap,
    ((r.node i).state = .pending ∧ (r.node i).op.isSome = true) ∨
      ((r.node i).state = .cancelled ∧ (r.node i).op = none)
  idle : ∀ i ∈ r.free, (r.node i).op = none ∧ (r.node i).state ≠ .pending

theorem Exact.represented {r : TimerRegistry Op} (hr : Exact r) : Represented r where
  indices := hr.indices
  count := hr.count
  isEmpty_iff := by
    rw [isEmpty, beq_iff_eq, hr.count, List.length_eq_zero_iff]
  isHeap := hr.isHeap
  queued := hr.queued
  idle := by
    intro i hi
    have hout : i ∉ r.heap := fun hin =>
      (List.nodup_append.mp hr.nodup).2.2 i hin i hi rfl
    have hidle := hr.idle i (hr.bound i (List.mem_append_right _ hi)) hout
    exact ⟨hidle.2, hidle.1 ▸ nofun⟩

/-- After any sequence of calls that leaves fewer than 2^32 nodes, and at each round of
a `process_expired` that follows, the registry is as its fields say.  Where a round
finds a top of the heap, that is a node of the table and pending unless cancelled, so
the test for another state after `pop_heap` never holds, and the count that
`recycle_node` lowers is not 0. -/
theorem run_timer_invariant (calls : List (Call Op))
    (hfew : (run algorithms calls).nodes.length < 2 ^ 32) :
    Represented (run algorithms calls) ∧
    ∀ clock, ∀ t ∈ rounds algorithms clock (run algorithms calls).heap.length 0
        (run algorithms calls),
      Represented t ∧
      ∀ index rest, t.heap = index :: rest →
        index < t.nodes.length ∧ 0 < t.activeCount ∧
        ((t.node index).state ≠ .cancelled → (t.node index).state = .pending) := by
  have hr := run_exact algorithms calls hfew
  refine ⟨hr.represented, fun clock t ht => ?_⟩
  have hround := (expireLoop_rounds algorithms clock _ 0 _ hr).1 t ht
  refine ⟨hround.represented, fun index rest hheap => ?_⟩
  have hmem : index ∈ t.heap := hheap ▸ List.mem_cons_self
  refine ⟨hround.bound index (List.mem_append_left _ hmem), ?_, fun hlive => ?_⟩
  · rw [hround.count, hheap]
    exact Nat.succ_pos _
  · obtain ⟨hpending, -⟩ | ⟨hcancelled, -⟩ := hround.queued index hmem
    · exact hpending
    · exact absurd hcancelled hlive

theorem run_timer_invariant_two :
    (run (BinaryHeap.sorted Nat) [.addTimer 5 (), .addTimer 3 (), .cancel 0 1,
      .processExpired fun _ => 4]).nodes.length < 2 ^ 32 ∧
    Represented (run (BinaryHeap.sorted Nat) [.addTimer 5 (), .addTimer 3 (),
      .cancel 0 1, .processExpired fun _ => 4]) :=
  ⟨by decide, (run_timer_invariant (BinaryHeap.sorted Nat) _ (by decide)).1⟩

end Heap

end TimerRegistry

end Iocoro
