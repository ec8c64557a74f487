/-
`timer_registry`: pending timers in a binary heap of node indices, with a free
list of recycled nodes and a token in every node.
-/
import Iocoro.BinaryHeap
import Iocoro.Inventory
import Iocoro.FixedWidth
import Iocoro.ReactorTypes

namespace Iocoro

universe u

inductive TimerState where
  | pending
  | fired
  | cancelled
deriving DecidableEq, Repr

namespace TimerRegistry

structure TimerNode (Op : Type u) where
  expiry : Int := 0
  op : Option Op := none
  token : Nat := 1
  state : TimerState := .pending
deriving DecidableEq, Repr

structure RegisterResult where
  index : Nat := 0
  token : Nat := invalidToken
deriving DecidableEq, Repr

structure CancelResult (Op : Type u) where
  op : Option Op := none
  cancelled : Bool := false
deriving DecidableEq, Repr

end TimerRegistry

open TimerRegistry

structure TimerRegistry (Op : Type u) where
  nodes : List (TimerNode Op) := []
  heap : List Nat := []
  free : List Nat := []
  activeCount : Nat := 0
deriving DecidableEq, Repr

namespace TimerRegistry

variable {Op : Type u}

def node (r : TimerRegistry Op) (index : Nat) : TimerNode Op :=
  r.nodes.getD index {}

def setNode (r : TimerRegistry Op) (index : Nat) (node : TimerNode Op) :
    TimerRegistry Op :=
  { r with nodes := r.nodes.set index node }

/-- The comparator of the heap. -/
def later (r : TimerRegistry Op) (a b : Nat) : Bool :=
  decide ((r.node b).expiry < (r.node a).expiry)

/-- `advance_token`. -/
def advanceToken (token : Nat) : Nat :=
  let next := FixedWidth.incr 64 token
  if next = invalidToken then FixedWidth.incr 64 next else next

/-- The node after its timer has ended. -/
def TimerNode.recycle (node : TimerNode Op) : TimerNode Op :=
  { node with op := none, state := .fired, token := advanceToken node.token }

/-- `recycle_node`. -/
def recycleNode (r : TimerRegistry Op) (index : Nat) : TimerRegistry Op :=
  { r.setNode index (r.node index).recycle with
    free := r.free ++ [index]
    activeCount :=
      if 0 < r.activeCount then FixedWidth.decr 64 r.activeCount
      else r.activeCount }

/-- `cancel`. -/
def cancel (r : TimerRegistry Op) (index token : Nat) :
    TimerRegistry Op × CancelResult Op :=
  if token = invalidToken ∨ r.nodes.length ≤ index then (r, {})
  else
    let node := r.node index
    if node.token ≠ token then (r, {})
    else if node.state ≠ .pending then (r, {})
    else
      (r.setNode index { node with op := none, state := .cancelled },
        { op := node.op, cancelled := true })

/-- `next_timeout`, in milliseconds; time points are in nanoseconds. -/
def nextTimeout (r : TimerRegistry Op) (now : Int) : Option Int :=
  match r.heap with
  | [] => none
  | index :: _ =>
      let node := r.node index
      if node.state = .cancelled then some 0
      else if node.expiry ≤ now then some 0
      else some ((node.expiry - now).tdiv 1000000)

/-- `empty`. -/
def isEmpty (r : TimerRegistry Op) : Bool := r.activeCount == 0

/-- `drain_all`. -/
def drainAll (r : TimerRegistry Op) : TimerRegistry Op × List Op :=
  if r.nodes.isEmpty then (r, [])
  else
    ({ nodes := r.nodes.map TimerNode.recycle
       heap := []
       free := List.range (FixedWidth.truncate 32 r.nodes.length)
       activeCount := 0 },
      r.nodes.flatMap fun node => node.op.toList)

section Heap

variable (algorithms : BinaryHeap.Algorithms Nat)

def pushHeap (r : TimerRegistry Op) (index : Nat) : TimerRegistry Op :=
  { r with heap := algorithms.pushHeap r.later (r.heap ++ [index]) }

def popHeap (r : TimerRegistry Op) : TimerRegistry Op :=
  { r with heap := (algorithms.popHeap r.later r.heap).dropLast }

/-- The slot `add_timer` uses: a free node, else a new one at the end. -/
def allocate (r : TimerRegistry Op) : TimerRegistry Op × Nat :=
  match r.free.getLast? with
  | some index => ({ r with free := r.free.dropLast }, index)
  | none =>
      ({ r with nodes := r.nodes ++ [{}] },
        FixedWidth.truncate 32 r.nodes.length)

/-- `add_timer`. -/
def addTimer (r : TimerRegistry Op) (expiry : Int) (op : Option Op) :
    TimerRegistry Op × RegisterResult :=
  let (r, index) := r.allocate
  let node := r.node index
  let r := r.setNode index { node with expiry, op, state := .pending }
  ({ r.pushHeap algorithms index with
      activeCount := FixedWidth.incr 64 r.activeCount },
    { index, token := node.token })

/-- What one round of the loop of `process_expired` did: whether it looked at
the clock, and the entry it appended to `ready`. -/
structure Expired (Op : Type u) where
  sampled : Bool
  op : Option Op
  completed : Bool
deriving DecidableEq, Repr

/-- One round of the loop; `none` leaves the loop. -/
def expireStep (r : TimerRegistry Op) (now : Int) :
    Option (TimerRegistry Op × Expired Op) :=
  match r.heap with
  | [] => none
  | index :: _ =>
      let node := r.node index
      let recycled := (r.popHeap algorithms).recycleNode index
      if node.state = .cancelled then
        some (recycled, { sampled := false, op := node.op, completed := false })
      else if now < node.expiry then none
      else if node.state ≠ .pending then
        some (recycled, { sampled := true, op := none, completed := false })
      else some (recycled, { sampled := true, op := node.op, completed := true })

/-- The loop of `process_expired`; `clock k` is the sample number `k` and each
round removes one entry of the heap. -/
def expireLoop (clock : Nat → Int) :
    Nat → Nat → TimerRegistry Op → TimerRegistry Op × List (Op × Bool)
  | 0, _, r => (r, [])
  | fuel + 1, k, r =>
      match r.expireStep algorithms (clock k) with
      | none => (r, [])
      | some (t, out) =>
          let (final, ready) :=
            expireLoop clock fuel (if out.sampled then k + 1 else k) t
          (final, (out.op.map fun op => (op, out.completed)).toList ++ ready)

/-- The part of `process_expired` before the callbacks: the operations to call
back, and whether with `on_complete`. -/
def processExpired (r : TimerRegistry Op) (clock : Nat → Int) :
    TimerRegistry Op × List (Op × Bool) :=
  expireLoop algorithms clock r.heap.length 0 r

end Heap

/-! ### Representation invariant -/

theorem node_setNode {r : TimerRegistry Op} {index : Nat}
    (hindex : index < r.nodes.length) (new : TimerNode Op) (j : Nat) :
    (r.setNode index new).node j = if j = index then new else r.node j :=
  Inventory.getD_set hindex new {} j

theorem later_strictWeak (r : TimerRegistry Op) :
    BinaryHeap.StrictWeak r.later := by
  constructor
  · intro a b hab
    simp only [later, decide_eq_true_eq, decide_eq_false_iff_not] at hab ⊢
    omega
  · intro a b c hac
    simp only [later, decide_eq_true_eq] at hac ⊢
    omega

/-- A node in the heap waits with its operation, or has lost it to `cancel`. -/
def TimerNode.Queued (node : TimerNode Op) : Prop :=
  (node.state = .pending ∧ node.op.isSome) ∨
    (node.state = .cancelled ∧ node.op = none)

/-- A node outside the heap is at rest. -/
def TimerNode.Idle (node : TimerNode Op) : Prop :=
  node.state = .fired ∧ node.op = none

/-- Every node is in the heap or at rest, and the heap and the free list name
distinct nodes. -/
structure Wf (r : TimerRegistry Op) : Prop where
  size : r.nodes.length ≤ 2 ^ 32
  bound : ∀ i ∈ r.heap ++ r.free, i < r.nodes.length
  nodup : (r.heap ++ r.free).Nodup
  isHeap : BinaryHeap.IsHeap r.later r.heap
  queued : ∀ i ∈ r.heap, (r.node i).Queued
  idle : ∀ i < r.nodes.length, i ∉ r.heap → (r.node i).Idle

theorem wf_empty : Wf ({} : TimerRegistry Op) where
  size := by simp
  bound := by simp
  nodup := by simp
  isHeap := BinaryHeap.isHeap_nil _
  queued := by simp
  idle := by simp

theorem TimerNode.recycle_idle (node : TimerNode Op) : node.recycle.Idle :=
  ⟨rfl, rfl⟩

/-- Heaps stay heaps while no node in them changes its expiry. -/
theorem isHeap_of_expiry {r t : TimerRegistry Op} {heap : List Nat}
    (hheap : BinaryHeap.IsHeap r.later heap)
    (hexpiry : ∀ i ∈ heap, (t.node i).expiry = (r.node i).expiry) :
    BinaryHeap.IsHeap t.later heap := by
  refine hheap.congr ?_
  intro a ha b hb
  simp only [later, hexpiry a ha, hexpiry b hb]

/-- `add_timer` can name a node: one is free, or the next index fits its type. -/
def hasRoom (r : TimerRegistry Op) : Bool :=
  !r.free.isEmpty || decide (r.nodes.length < 2 ^ 32)

/-- What `allocate` does for a well-formed registry. -/
structure Allocated (r t : TimerRegistry Op) (index : Nat) : Prop where
  index_lt : index < t.nodes.length
  size : t.nodes.length ≤ 2 ^ 32
  grows : r.nodes.length ≤ t.nodes.length
  old : ∀ j < t.nodes.length, j ≠ index → j < r.nodes.length
  node : ∀ j, t.node j = r.node j
  heap : t.heap = r.heap
  free : ∀ j ∈ t.free, j ∈ r.free
  nodup : (index :: (r.heap ++ t.free)).Nodup
  vacant : (r.node index).op = none

theorem allocate_spec {r : TimerRegistry Op} (hr : Wf r)
    (hroom : r.hasRoom = true) :
    Allocated r r.allocate.1 r.allocate.2 := by
  have hnodup := List.nodup_append.mp hr.nodup
  unfold allocate
  cases hlast : r.free.getLast? with
  | some index =>
      have hfree : r.free = r.free.dropLast ++ [index] :=
        (List.dropLast_append_getLast? index hlast).symm
      have hmem : index ∈ r.free := List.mem_of_getLast? hlast
      have hindex : index < r.nodes.length :=
        hr.bound index (List.mem_append_right _ hmem)
      have hheap : index ∉ r.heap := fun hin =>
        hnodup.2.2 index hin index hmem rfl
      have hlastNodup : (r.free.dropLast ++ [index]).Nodup := hfree ▸ hnodup.2.1
      have hdrop : index ∉ r.free.dropLast := fun hin =>
        (List.nodup_append.mp hlastNodup).2.2 index hin index (by simp) rfl
      exact {
        index_lt := hindex
        size := hr.size
        grows := le_refl _
        old := fun j hj _ => hj
        node := fun _ => rfl
        heap := rfl
        free := fun j hj => List.dropLast_subset _ hj
        nodup := by
          refine List.nodup_cons.mpr ⟨?_, ?_⟩
          · simp only [List.mem_append, not_or]
            exact ⟨hheap, hdrop⟩
          · refine List.nodup_append.mpr ⟨hnodup.1,
              (List.nodup_append.mp hlastNodup).1, ?_⟩
            intro a ha b hb
            exact hnodup.2.2 a ha b (List.dropLast_subset _ hb)
        vacant := (hr.idle index hindex hheap).2 }
  | none =>
      have hfree : r.free = [] := List.getLast?_eq_none_iff.mp hlast
      have hlt : r.nodes.length < 2 ^ 32 := by
        simpa [hasRoom, hfree] using hroom
      have hindex : FixedWidth.truncate 32 r.nodes.length = r.nodes.length :=
        FixedWidth.truncate_of_lt hlt
      have hheap : r.nodes.length ∉ r.heap := fun hin =>
        Nat.lt_irrefl _ (hr.bound _ (List.mem_append_left _ hin))
      simp only [hindex]
      exact {
        index_lt := by simp
        size := by
          simp only [List.length_append, List.length_singleton]
          omega
        grows := by simp
        old := by
          intro j hj hne
          simp only [List.length_append, List.length_singleton] at hj
          omega
        node := fun j => Inventory.getD_append_default r.nodes {} j
        heap := rfl
        free := fun _ hj => hj
        nodup := by
          simp only [hfree, List.append_nil]
          exact List.nodup_cons.mpr ⟨hheap, hnodup.1⟩
        vacant := by simp [TimerRegistry.node] }

section Heap

variable (algorithms : BinaryHeap.Algorithms Nat)

/-- What `add_timer` does for a well-formed registry with room. -/
structure Added (r t : TimerRegistry Op) (index : Nat) (expiry : Int)
    (op : Option Op) : Prop where
  index_lt : index < t.nodes.length
  size : t.nodes.length ≤ 2 ^ 32
  grows : r.nodes.length ≤ t.nodes.length
  old : ∀ j < t.nodes.length, j ≠ index → j < r.nodes.length
  node : ∀ j, t.node j =
    if j = index then
      { expiry, op, token := (r.node index).token, state := .pending }
    else r.node j
  heap : t.heap.Perm (r.heap ++ [index])
  isHeap : BinaryHeap.IsHeap t.later t.heap
  free : ∀ j ∈ t.free, j ∈ r.free
  nodup : (index :: (r.heap ++ t.free)).Nodup

theorem addTimer_spec {r : TimerRegistry Op} (hr : Wf r)
    (hroom : r.hasRoom = true) (expiry : Int) (op : Option Op) :
    Added r (r.addTimer algorithms expiry op).1
        (r.addTimer algorithms expiry op).2.index expiry op ∧
      (r.addTimer algorithms expiry op).2.token =
        (r.node (r.addTimer algorithms expiry op).2.index).token := by
  have hspec := allocate_spec hr hroom
  rcases hallocate : r.allocate with ⟨a, index⟩
  rw [hallocate] at hspec
  let new : TimerNode Op := { a.node index with expiry, op, state := .pending }
  have hview : ∀ j, (a.setNode index new).node j =
      if j = index then
        { expiry, op, token := (r.node index).token, state := .pending }
      else r.node j := by
    intro j
    rw [node_setNode hspec.index_lt]
    simp only [new, hspec.node]
  have hheap : BinaryHeap.IsHeap (a.setNode index new).later r.heap := by
    refine isHeap_of_expiry hr.isHeap ?_
    intro i hi
    have hne : i ≠ index := by
      rintro rfl
      exact (List.nodup_cons.mp hspec.nodup).1 (List.mem_append_left _ hi)
    rw [hview, if_neg hne]
  have hweak := later_strictWeak (a.setNode index new)
  simp only [addTimer, hallocate, pushHeap]
  refine ⟨?_, by rw [hspec.node]⟩
  exact {
    index_lt := by simpa [setNode] using hspec.index_lt
    size := by simpa [setNode] using hspec.size
    grows := by simpa [setNode] using hspec.grows
    old := by simpa [setNode] using hspec.old
    node := hview
    heap := by
      have hperm := algorithms.pushHeap_perm (a := index) hweak hheap
      rw [← hspec.heap] at hperm ⊢
      exact hperm
    isHeap := by
      have hpushed := algorithms.pushHeap_isHeap (a := index) hweak hheap
      rw [← hspec.heap] at hpushed
      exact hpushed
    free := hspec.free
    nodup := hspec.nodup }

theorem Added.wf {r t : TimerRegistry Op} {index : Nat} {expiry : Int} {op : Op}
    (hr : Wf r) (ht : Added r t index expiry (some op)) : Wf t where
  size := ht.size
  bound := by
    intro i hi
    rcases List.mem_append.mp hi with hheap | hfree
    · rcases List.mem_append.mp (ht.heap.mem_iff.mp hheap) with hold | hnew
      · exact lt_of_lt_of_le (hr.bound i (List.mem_append_left _ hold)) ht.grows
      · rw [List.mem_singleton.mp hnew]
        exact ht.index_lt
    · exact lt_of_lt_of_le
        (hr.bound i (List.mem_append_right _ (ht.free i hfree))) ht.grows
  nodup := by
    have hperm : (t.heap ++ t.free).Perm (index :: (r.heap ++ t.free)) := by
      refine (ht.heap.append_right t.free).trans ?_
      rw [List.append_assoc]
      exact List.perm_middle
    exact hperm.nodup_iff.mpr ht.nodup
  isHeap := ht.isHeap
  queued := by
    intro i hi
    rw [ht.node]
    split
    · exact Or.inl ⟨rfl, rfl⟩
    · next hne =>
        rcases List.mem_append.mp (ht.heap.mem_iff.mp hi) with hold | hnew
        · exact hr.queued i hold
        · exact absurd (List.mem_singleton.mp hnew) hne
  idle := by
    intro i hi hout
    have hne : i ≠ index := by
      rintro rfl
      exact hout (ht.heap.mem_iff.mpr (by simp))
    rw [ht.node, if_neg hne]
    refine hr.idle i (ht.old i hi hne) ?_
    intro hold
    exact hout (ht.heap.mem_iff.mpr (List.mem_append_left _ hold))

/-- One node of the heap has ended and went to the free list. -/
structure Recycled (r t : TimerRegistry Op) (index : Nat) : Prop where
  index_lt : index < r.nodes.length
  nodes : t.nodes = r.nodes.set index (r.node index).recycle
  heap : (index :: t.heap).Perm r.heap
  isHeap : BinaryHeap.IsHeap t.later t.heap
  free : t.free = r.free ++ [index]

theorem Recycled.size {r t : TimerRegistry Op} {index : Nat}
    (ht : Recycled r t index) : t.nodes.length = r.nodes.length := by
  simp [ht.nodes]

theorem Recycled.node {r t : TimerRegistry Op} {index : Nat}
    (ht : Recycled r t index) (j : Nat) :
    t.node j = if j = index then (r.node index).recycle else r.node j := by
  have hset := node_setNode ht.index_lt (r.node index).recycle j
  rwa [setNode, ← ht.nodes] at hset

theorem recycleTop_spec {r : TimerRegistry Op} (hr : Wf r) {index : Nat}
    {rest : List Nat} (hheap : r.heap = index :: rest) :
    Recycled r ((r.popHeap algorithms).recycleNode index) index := by
  have hindex : index < r.nodes.length := hr.bound index (by simp [hheap])
  have hisHeap := hr.isHeap
  rw [hheap] at hisHeap
  obtain ⟨left, hpop, hperm, hleft⟩ :=
    algorithms.popHeap_spec (later_strictWeak r) hisHeap
  have hnode : ∀ j, ((r.popHeap algorithms).recycleNode index).node j =
      if j = index then (r.node index).recycle else r.node j :=
    fun j => node_setNode (r := r) hindex _ j
  have hnew : ((r.popHeap algorithms).recycleNode index).heap = left := by
    simp [recycleNode, popHeap, setNode, hheap, hpop]
  have hsame : ∀ i ∈ left, i ≠ index := by
    intro i hi heq
    have hnodup := (List.nodup_append.mp hr.nodup).1
    rw [hheap] at hnodup
    exact (List.nodup_cons.mp hnodup).1 (heq ▸ hperm.mem_iff.mp hi)
  exact {
    index_lt := hindex
    nodes := rfl
    heap := by
      rw [hnew, hheap]
      exact hperm.cons index
    isHeap := by
      rw [hnew]
      refine isHeap_of_expiry hleft ?_
      intro i hi
      rw [hnode, if_neg (hsame i hi)]
    free := rfl }

theorem Recycled.wf {r t : TimerRegistry Op} {index : Nat} (hr : Wf r)
    (ht : Recycled r t index) : Wf t where
  size := by
    rw [ht.size]
    exact hr.size
  bound := by
    intro i hi
    rw [ht.size]
    apply hr.bound
    rw [ht.free] at hi
    rcases List.mem_append.mp hi with hheap | hfree
    · exact List.mem_append_left _
        (ht.heap.mem_iff.mp (List.mem_cons_of_mem _ hheap))
    · rcases List.mem_append.mp hfree with hfree | hnew
      · exact List.mem_append_right _ hfree
      · rw [List.mem_singleton.mp hnew]
        exact List.mem_append_left _ (ht.heap.mem_iff.mp (by simp))
  nodup := by
    have hperm : (t.heap ++ t.free).Perm (r.heap ++ r.free) := by
      rw [ht.free, ← List.append_assoc]
      refine (List.perm_append_singleton index _).trans ?_
      exact ht.heap.append_right r.free
    exact hperm.nodup_iff.mpr hr.nodup
  isHeap := ht.isHeap
  queued := by
    intro i hi
    have hold : i ∈ r.heap := ht.heap.mem_iff.mp (List.mem_cons_of_mem _ hi)
    have hnodup := ht.heap.nodup_iff.mpr (List.nodup_append.mp hr.nodup).1
    have hne : i ≠ index := by
      rintro rfl
      exact (List.nodup_cons.mp hnodup).1 hi
    rw [ht.node, if_neg hne]
    exact hr.queued i hold
  idle := by
    intro i hi hout
    rw [ht.node]
    split
    · exact TimerNode.recycle_idle _
    · next hne =>
        refine hr.idle i (ht.size ▸ hi) ?_
        intro hold
        rcases List.mem_cons.mp (ht.heap.mem_iff.mpr hold) with heq | hin
        · exact hne heq
        · exact hout hin

/-- A round of the loop recycles the top of the heap and takes its operation. -/
theorem expireStep_spec {r t : TimerRegistry Op} (hr : Wf r) {now : Int}
    {out : Expired Op} (hstep : r.expireStep algorithms now = some (t, out)) :
    ∃ index, Recycled r t index ∧ out.op = (r.node index).op := by
  unfold expireStep at hstep
  split at hstep
  · simp at hstep
  · next index rest hheap =>
      have hqueued := hr.queued index (by simp [hheap])
      have hspec := recycleTop_spec algorithms hr hheap
      simp only at hstep
      split at hstep
      · simp only [Option.some.injEq, Prod.mk.injEq] at hstep
        obtain ⟨rfl, rfl⟩ := hstep
        exact ⟨index, hspec, rfl⟩
      · next hlive =>
          have hpending : (r.node index).state = .pending := by
            rcases hqueued with ⟨hpending, _⟩ | ⟨hcancelled, _⟩
            · exact hpending
            · exact absurd hcancelled hlive
          simp only [hpending, ne_eq, not_true_eq_false, ↓reduceIte] at hstep
          split at hstep
          · simp at hstep
          · simp only [Option.some.injEq, Prod.mk.injEq] at hstep
            obtain ⟨rfl, rfl⟩ := hstep
            exact ⟨index, hspec, rfl⟩

/-- The loop keeps whatever a round keeps. -/
theorem expireLoop_induct {P : TimerRegistry Op → Prop} (clock : Nat → Int)
    (hkeep : ∀ r t index, Wf r → P r → Recycled r t index → P t) :
    ∀ (fuel k : Nat) (r : TimerRegistry Op), Wf r → P r →
      Wf (expireLoop algorithms clock fuel k r).1 ∧
        P (expireLoop algorithms clock fuel k r).1 := by
  intro fuel
  induction fuel with
  | zero =>
      intro k r hr hp
      exact ⟨hr, hp⟩
  | succ fuel ih =>
      intro k r hr hp
      rw [expireLoop]
      cases hstep : r.expireStep algorithms (clock k) with
      | none => exact ⟨hr, hp⟩
      | some result =>
          obtain ⟨t, out⟩ := result
          obtain ⟨index, hspec, _⟩ := expireStep_spec algorithms hr hstep
          exact ih _ t (hspec.wf hr) (hkeep r t index hr hp hspec)

theorem processExpired_wf {r : TimerRegistry Op} (hr : Wf r)
    (clock : Nat → Int) : Wf (r.processExpired algorithms clock).1 :=
  (expireLoop_induct algorithms (P := fun _ => True) clock
    (fun _ _ _ _ _ _ => trivial) _ _ r hr trivial).1

end Heap

theorem cancel_eq (r : TimerRegistry Op) (index token : Nat) :
    r.cancel index token =
      if token ≠ invalidToken ∧ index < r.nodes.length ∧
          (r.node index).token = token ∧ (r.node index).state = .pending then
        (r.setNode index { r.node index with op := none, state := .cancelled },
          { op := (r.node index).op, cancelled := true })
      else (r, {}) := by
  unfold cancel
  by_cases hvalid : token = invalidToken ∨ r.nodes.length ≤ index
  · rw [if_pos hvalid, if_neg]
    rintro ⟨htoken, hindex, _⟩
    rcases hvalid with h | h
    · exact htoken h
    · omega
  · rw [if_neg hvalid]
    rw [not_or, not_le] at hvalid
    by_cases htoken : (r.node index).token = token
    · by_cases hstate : (r.node index).state = .pending
      · simp [htoken, hstate, hvalid.1, hvalid.2]
      · simp [htoken, hstate]
    · simp [htoken]

/-! ### What stays in the nodes -/

theorem node_setNode_eq (r : TimerRegistry Op) (index : Nat)
    (new : TimerNode Op) (j : Nat) :
    (r.setNode index new).node j =
      if j = index ∧ index < r.nodes.length then new else r.node j := by
  by_cases hindex : index < r.nodes.length
  · simp [node_setNode hindex, hindex]
  · have hset := List.set_eq_of_length_le (a := new) (not_lt.mp hindex)
    simp [setNode, node, hindex, hset]

/-- The second registry stores nothing that the first does not store in the same
node under the same token. -/
def OnlyRemoves (r t : TimerRegistry Op) : Prop :=
  ∀ i op, (t.node i).op = some op →
    (r.node i).op = some op ∧ (t.node i).token = (r.node i).token

/-- Tokens are valid, and a node with an operation is pending. -/
def NodesOk (r : TimerRegistry Op) : Prop :=
  ∀ i, (r.node i).token ≠ invalidToken ∧
    ((r.node i).op.isSome = true → (r.node i).state = .pending)

theorem nodesOk_empty : NodesOk ({} : TimerRegistry Op) := by
  intro i
  simp [node, invalidToken]

theorem advanceToken_ne (token : Nat) : advanceToken token ≠ invalidToken := by
  simp only [advanceToken]
  split
  · next hzero =>
      rw [hzero]
      decide
  · assumption

/-- Nodes are emptied, and their tokens stay valid. -/
theorem onlyRemoves_of_emptied {r t : TimerRegistry Op} (hr : NodesOk r)
    (hnode : ∀ j, t.node j = r.node j ∨
      ((t.node j).op = none ∧ (t.node j).token ≠ invalidToken)) :
    OnlyRemoves r t ∧ NodesOk t := by
  constructor
  · intro i op hop
    rcases hnode i with hsame | ⟨hnone, _⟩
    · rw [hsame] at hop ⊢
      exact ⟨hop, rfl⟩
    · rw [hnone] at hop
      simp at hop
  · intro i
    rcases hnode i with hsame | ⟨hnone, htoken⟩
    · rw [hsame]
      exact hr i
    · simp [hnone, htoken]

theorem OnlyRemoves.trans {r t u : TimerRegistry Op} (hrt : OnlyRemoves r t)
    (htu : OnlyRemoves t u) : OnlyRemoves r u := by
  intro i op hop
  obtain ⟨hmid, htoken⟩ := htu i op hop
  obtain ⟨hold, htoken'⟩ := hrt i op hmid
  exact ⟨hold, htoken.trans htoken'⟩

theorem cancel_onlyRemoves {r : TimerRegistry Op} (hr : NodesOk r)
    (index token : Nat) :
    OnlyRemoves r (r.cancel index token).1 ∧
      NodesOk (r.cancel index token).1 := by
  apply onlyRemoves_of_emptied hr
  intro j
  rw [cancel_eq]
  split
  · rw [node_setNode_eq]
    split
    · exact Or.inr ⟨rfl, (hr index).1⟩
    · exact Or.inl rfl
  · exact Or.inl rfl

/-- A stored operation is removed by its own token. -/
theorem cancel_removes {r : TimerRegistry Op} (hr : NodesOk r) {index : Nat}
    (hop : (r.node index).op.isSome = true) :
    ((r.cancel index (r.node index).token).1.node index).op = none := by
  have hindex : index < r.nodes.length := by
    by_contra hout
    simp [node, List.getElem?_eq_none (not_lt.mp hout)] at hop
  rw [cancel_eq, if_pos ⟨(hr index).1, hindex, rfl, (hr index).2 hop⟩,
    node_setNode hindex, if_pos rfl]

theorem recycleNode_onlyRemoves {r : TimerRegistry Op} (hr : NodesOk r)
    (index : Nat) :
    OnlyRemoves r (r.recycleNode index) ∧ NodesOk (r.recycleNode index) := by
  apply onlyRemoves_of_emptied hr
  intro j
  have hnode : (r.recycleNode index).node j =
      (r.setNode index (r.node index).recycle).node j := rfl
  rw [hnode, node_setNode_eq]
  split
  · exact Or.inr ⟨rfl, advanceToken_ne _⟩
  · exact Or.inl rfl

section

variable (algorithms : BinaryHeap.Algorithms Nat)

theorem expireStep_onlyRemoves {r t : TimerRegistry Op} (hr : NodesOk r)
    {now : Int} {out : Expired Op}
    (hstep : r.expireStep algorithms now = some (t, out)) :
    OnlyRemoves r t ∧ NodesOk t := by
  have hpop : NodesOk (r.popHeap algorithms) := hr
  unfold expireStep at hstep
  split at hstep
  · simp at hstep
  · next index rest _ =>
      have hkeep := recycleNode_onlyRemoves hpop index
      simp only at hstep
      split at hstep
      · obtain rfl := (Prod.mk.inj (Option.some.inj hstep)).1
        exact hkeep
      · split at hstep
        · simp at hstep
        · split at hstep
          · obtain rfl := (Prod.mk.inj (Option.some.inj hstep)).1
            exact hkeep
          · obtain rfl := (Prod.mk.inj (Option.some.inj hstep)).1
            exact hkeep

theorem expireLoop_onlyRemoves (clock : Nat → Int) (fuel k : Nat)
    {r : TimerRegistry Op} (hr : NodesOk r) :
    OnlyRemoves r (expireLoop algorithms clock fuel k r).1 ∧
      NodesOk (expireLoop algorithms clock fuel k r).1 := by
  induction fuel generalizing k r with
  | zero => exact ⟨fun _ _ hop => ⟨hop, rfl⟩, hr⟩
  | succ fuel ih =>
      rw [expireLoop]
      cases hstep : r.expireStep algorithms (clock k) with
      | none => exact ⟨fun _ _ hop => ⟨hop, rfl⟩, hr⟩
      | some result =>
          obtain ⟨t, out⟩ := result
          obtain ⟨hround, ht⟩ := expireStep_onlyRemoves algorithms hr hstep
          obtain ⟨hloop, hend⟩ := ih (if out.sampled then k + 1 else k) ht
          exact ⟨hround.trans hloop, hend⟩

theorem processExpired_onlyRemoves {r : TimerRegistry Op} (hr : NodesOk r)
    (clock : Nat → Int) :
    OnlyRemoves r (r.processExpired algorithms clock).1 ∧
      NodesOk (r.processExpired algorithms clock).1 :=
  expireLoop_onlyRemoves algorithms clock r.heap.length 0 hr

theorem allocate_node (r : TimerRegistry Op) (j : Nat) :
    r.allocate.1.node j = r.node j := by
  unfold allocate
  split
  · rfl
  · exact Inventory.getD_append_default r.nodes {} j

/-- A new timer changes its own node only, which keeps its token. -/
theorem addTimer_node (r : TimerRegistry Op) (expiry : Int) (op : Option Op)
    (j : Nat) :
    (r.addTimer algorithms expiry op).2.token =
        (r.node (r.addTimer algorithms expiry op).2.index).token ∧
      ((r.addTimer algorithms expiry op).1.node j = r.node j ∨
        j = (r.addTimer algorithms expiry op).2.index ∧
          (r.addTimer algorithms expiry op).1.node j =
            { r.node j with expiry, op, state := .pending }) := by
  have hnode : (r.addTimer algorithms expiry op).1.node j =
      (r.allocate.1.setNode r.allocate.2
        { r.allocate.1.node r.allocate.2 with
          expiry, op, state := .pending }).node j := rfl
  refine ⟨congrArg TimerNode.token (allocate_node r r.allocate.2), ?_⟩
  rw [hnode, node_setNode_eq, allocate_node, allocate_node]
  split
  · next hj =>
      obtain ⟨rfl, _⟩ := hj
      exact Or.inr ⟨rfl, rfl⟩
  · exact Or.inl rfl

theorem addTimer_nodesOk {r : TimerRegistry Op} (hr : NodesOk r) (expiry : Int)
    (op : Option Op) : NodesOk (r.addTimer algorithms expiry op).1 := by
  intro j
  rcases (addTimer_node algorithms r expiry op j).2 with hsame | ⟨_, hnew⟩
  · rw [hsame]
    exact hr j
  · rw [hnew]
    exact ⟨(hr j).1, fun _ => rfl⟩

end

/-- A pending node is in the heap. -/
theorem Wf.mem_heap_of_pending {r : TimerRegistry Op} (hr : Wf r) {index : Nat}
    (hindex : index < r.nodes.length)
    (hstate : (r.node index).state = .pending) : index ∈ r.heap := by
  by_contra hout
  have hidle := (hr.idle index hindex hout).1
  rw [hstate] at hidle
  exact absurd hidle (by decide)

theorem cancel_wf {r : TimerRegistry Op} (hr : Wf r) (index token : Nat) :
    Wf (r.cancel index token).1 := by
  rw [cancel_eq]
  split
  · next hmatch =>
      obtain ⟨_, hindex, _, hstate⟩ := hmatch
      exact {
        size := by simpa [setNode] using hr.size
        bound := by simpa [setNode] using hr.bound
        nodup := hr.nodup
        isHeap := by
          refine isHeap_of_expiry hr.isHeap ?_
          intro i _
          rw [node_setNode hindex]
          split
          · next heq => rw [heq]
          · rfl
        queued := by
          intro i hi
          rw [node_setNode hindex]
          split
          · exact Or.inr ⟨rfl, rfl⟩
          · exact hr.queued i hi
        idle := by
          intro i hi hout
          have hne : i ≠ index := by
            rintro rfl
            exact hout (hr.mem_heap_of_pending hindex hstate)
          rw [node_setNode hindex, if_neg hne]
          exact hr.idle i (by simpa [setNode] using hi) hout }
  · exact hr

theorem drainAll_node (r : TimerRegistry Op) {i : Nat}
    (hi : i < r.nodes.length) : r.drainAll.1.node i = (r.node i).recycle := by
  have hne : r.nodes.isEmpty = false := by
    cases hnodes : r.nodes with
    | nil => simp [hnodes] at hi
    | cons _ _ => rfl
  simp [drainAll, hne, node, hi]

theorem drainAll_onlyRemoves {r : TimerRegistry Op} (hr : NodesOk r) :
    OnlyRemoves r r.drainAll.1 ∧ NodesOk r.drainAll.1 := by
  apply onlyRemoves_of_emptied hr
  intro j
  by_cases hj : j < r.nodes.length
  · rw [drainAll_node r hj]
    exact Or.inr ⟨rfl, advanceToken_ne _⟩
  · left
    unfold drainAll
    split
    · rfl
    · simp [node, List.getElem?_eq_none (not_lt.mp hj)]

theorem drainAll_wf {r : TimerRegistry Op} (hr : Wf r) : Wf r.drainAll.1 := by
  by_cases hempty : r.nodes.isEmpty = true
  · simpa [drainAll, hempty] using hr
  · have hfields : r.drainAll.1.heap = [] ∧
        r.drainAll.1.nodes.length = r.nodes.length ∧
        r.drainAll.1.free =
          List.range (FixedWidth.truncate 32 r.nodes.length) := by
      simp [drainAll, hempty]
    obtain ⟨hheap, hlength, hfree⟩ := hfields
    exact {
      size := by
        rw [hlength]
        exact hr.size
      bound := by
        intro i hi
        simp only [hheap, hfree, List.nil_append, List.mem_range] at hi
        rw [hlength]
        exact lt_of_lt_of_le hi (Nat.mod_le _ _)
      nodup := by
        simp only [hheap, hfree, List.nil_append]
        exact List.nodup_range
      isHeap := by
        rw [hheap]
        exact BinaryHeap.isHeap_nil _
      queued := by simp [hheap]
      idle := by
        intro i hi _
        rw [drainAll_node r (hlength ▸ hi)]
        exact TimerNode.recycle_idle _ }

/-! ### Where operations go -/

section Held

variable [DecidableEq Op]

/-- In how many nodes an operation is stored. -/
def held (r : TimerRegistry Op) (op : Op) : Nat :=
  Inventory.held (fun node : TimerNode Op => node.op.toList) r.nodes op

theorem setNode_held {r : TimerRegistry Op} {index : Nat}
    (hindex : index < r.nodes.length) (new : TimerNode Op) (op : Op) :
    (r.setNode index new).held op + (r.node index).op.toList.count op =
      r.held op + new.op.toList.count op :=
  Inventory.held_set _ hindex new {} op

theorem allocate_held (r : TimerRegistry Op) (op : Op) :
    r.allocate.1.held op = r.held op := by
  unfold allocate
  split
  · rfl
  · simp [held]

theorem addTimer_held (algorithms : BinaryHeap.Algorithms Nat)
    {r : TimerRegistry Op} (hr : Wf r) (hroom : r.hasRoom = true) (expiry : Int)
    (new op : Op) :
    (r.addTimer algorithms expiry (some new)).1.held op =
      r.held op + [new].count op := by
  have hspec := allocate_spec hr hroom
  have hallocated := r.allocate_held op
  have hset := setNode_held hspec.index_lt
    { r.allocate.1.node r.allocate.2 with
      expiry, op := some new, state := .pending } op
  have hvacant : (r.allocate.1.node r.allocate.2).op = none := by
    rw [hspec.node, hspec.vacant]
  rw [hvacant, hallocated] at hset
  exact hset

theorem cancel_held (r : TimerRegistry Op) (index token : Nat) (op : Op) :
    (r.cancel index token).1.held op +
        (r.cancel index token).2.op.toList.count op = r.held op := by
  rw [cancel_eq]
  split
  · next hmatch =>
      have hset := setNode_held hmatch.2.1
        { r.node index with op := none, state := .cancelled } op
      simpa using hset
  · simp

theorem Recycled.held {r t : TimerRegistry Op} {index : Nat}
    (ht : Recycled r t index) (op : Op) :
    t.held op + (r.node index).op.toList.count op = r.held op := by
  have hset := setNode_held ht.index_lt (r.node index).recycle op
  simp only [TimerRegistry.held, setNode, ← ht.nodes] at hset ⊢
  exact hset

theorem expireLoop_held (algorithms : BinaryHeap.Algorithms Nat)
    (clock : Nat → Int) (op : Op) :
    ∀ (fuel k : Nat) (r : TimerRegistry Op), Wf r →
      (expireLoop algorithms clock fuel k r).1.held op +
          ((expireLoop algorithms clock fuel k r).2.map Prod.fst).count op =
        r.held op := by
  intro fuel
  induction fuel with
  | zero =>
      intro k r _
      simp [expireLoop]
  | succ fuel ih =>
      intro k r hr
      rw [expireLoop]
      cases hstep : r.expireStep algorithms (clock k) with
      | none => simp
      | some result =>
          obtain ⟨t, out⟩ := result
          obtain ⟨index, hspec, hout⟩ := expireStep_spec algorithms hr hstep
          have hround := hspec.held op
          have hrest := ih (if out.sampled then k + 1 else k) t (hspec.wf hr)
          rw [← hout] at hround
          cases hop : out.op with
          | none =>
              simp only [hop, Option.toList_none, List.count_nil,
                Option.map_none, List.nil_append] at hround ⊢
              omega
          | some fired =>
              simp only [hop, Option.toList_some, Option.map_some,
                List.map_append, List.map_cons, List.map_nil,
                List.count_append] at hround ⊢
              omega

theorem processExpired_held (algorithms : BinaryHeap.Algorithms Nat)
    {r : TimerRegistry Op} (hr : Wf r) (clock : Nat → Int) (op : Op) :
    (r.processExpired algorithms clock).1.held op +
        ((r.processExpired algorithms clock).2.map Prod.fst).count op =
      r.held op :=
  expireLoop_held algorithms clock op _ _ r hr

theorem drainAll_held (r : TimerRegistry Op) (op : Op) :
    r.drainAll.1.held op + r.drainAll.2.count op = r.held op := by
  have hrecycled : ∀ nodes : List (TimerNode Op),
      (nodes.map TimerNode.recycle).flatMap (fun node => node.op.toList) = [] := by
    intro nodes
    simp [List.flatMap_map, TimerNode.recycle]
  unfold drainAll
  split
  · simp
  · simp [held, Inventory.held, hrecycled]

end Held

/-! ### Running out of indices -/

section Wrap

variable (algorithms : BinaryHeap.Algorithms Nat)

/-- The nodes after timers `0, …, n - 1` were added to an empty registry. -/
def filled (n : Nat) : List (TimerNode Nat) :=
  (List.range n).map fun i => { op := some i }

theorem filled_succ (n : Nat) :
    filled (n + 1) = filled n ++ [{ op := some n }] := by
  simp [filled, List.range_succ]

theorem filled_getD {n i : Nat} (hi : i < n) :
    (filled n).getD i {} = { op := some i } := by
  simp [filled, hi]

theorem filled_held (n i : Nat) :
    Inventory.held (fun node : TimerNode Nat => node.op.toList) (filled n) i =
      if i < n then 1 else 0 := by
  induction n with
  | zero => simp [filled]
  | succ n ih =>
      rw [filled_succ, Inventory.held_append, ih]
      simp only [Inventory.held_cons, Inventory.held_nil, Option.toList_some,
        List.count_singleton, beq_iff_eq]
      split <;> split <;> split <;> omega

theorem addTimer_of_free_nil {r : TimerRegistry Op} (hfree : r.free = [])
    (hlength : r.nodes.length < 2 ^ 32) (op : Op) :
    (r.addTimer algorithms 0 (some op)).1.nodes =
        r.nodes ++ [{ op := some op }] ∧
      (r.addTimer algorithms 0 (some op)).1.free = [] ∧
      (r.addTimer algorithms 0 (some op)).2 =
        { index := r.nodes.length, token := 1 } := by
  simp [addTimer, allocate, hfree, FixedWidth.truncate_of_lt hlength, pushHeap,
    setNode, node]

/-- With all `2 ^ 32` nodes taken the next index wraps around, and node `0`
loses its operation. -/
theorem addTimer_of_full {r : TimerRegistry Op} (hfree : r.free = [])
    (hlength : r.nodes.length = 2 ^ 32) (op : Op) :
    (r.addTimer algorithms 0 (some op)).1.nodes =
        (r.nodes ++ [({} : TimerNode Op)]).set 0
          { op := some op, token := (r.node 0).token } ∧
      (r.addTimer algorithms 0 (some op)).2 =
        { index := 0, token := (r.node 0).token } := by
  have hnode : (r.nodes ++ [({} : TimerNode Op)]).getD 0 {} = r.node 0 :=
    Inventory.getD_append_default r.nodes {} 0
  simp only [addTimer, allocate, hfree, List.getLast?_nil, hlength,
    FixedWidth.truncate_self, pushHeap, setNode]
  simp only [node] at hnode ⊢
  rw [hnode]
  exact ⟨rfl, rfl⟩

/-- The first of `2 ^ 32` pending timers is stored nowhere after one more. -/
theorem addTimer_of_full_held {r : TimerRegistry Nat} (hfree : r.free = [])
    (hnodes : r.nodes = filled (2 ^ 32)) :
    (r.addTimer algorithms 0 (some (2 ^ 32))).1.held 0 = 0 := by
  have hlength : r.nodes.length = 2 ^ 32 := by
    rw [hnodes, filled, List.length_map, List.length_range]
  have hbound : 0 < (r.nodes ++ [({} : TimerNode Nat)]).length := by simp
  have hset := Inventory.held_set (fun node : TimerNode Nat => node.op.toList)
    hbound { op := some (2 ^ 32), token := (r.node 0).token } {} 0
  rw [← (addTimer_of_full algorithms hfree hlength (2 ^ 32)).1,
    Inventory.getD_append_default, Inventory.held_append, hnodes, filled_held,
    filled_getD (by omega)] at hset
  simpa [held] using hset

end Wrap

end TimerRegistry

end Iocoro
