/-
Cancellation handles.  The registries run under any sequence of calls while a
log keeps every handle they issued with the operation it was issued for; a
handle reaches that operation and no other.
-/
import Iocoro.FdRegistry
import Iocoro.TimerRegistry
import Iocoro.TransitionSystem

namespace Iocoro

universe u

namespace Handles

variable {Op : Type u}

/-- A result of `add_timer` and its operation. -/
structure TimerHandle (Op : Type u) where
  index : Nat
  token : Nat
  op : Op
deriving DecidableEq, Repr

/-- A registration that stored its operation. -/
structure FdHandle (Op : Type u) where
  fd : Int
  kind : FdEventKind
  token : Nat
  op : Op
deriving DecidableEq, Repr

/-! ### Timer handles -/

/-- An operation is stored in some timer node. -/
def TimerStores (r : TimerRegistry Op) (op : Op) : Prop :=
  ∃ index < r.nodes.length, (r.node index).op = some op

/-- The tokens of the nodes against the handles issued so far, after at most
`recycles` advances of a token. -/
structure TimerTracked (r : TimerRegistry Op) (issued : List (TimerHandle Op))
    (recycles : Nat) : Prop where
  wf : r.Wf
  positive : ∀ i < r.nodes.length, 0 < (r.node i).token
  bounded : ∀ i < r.nodes.length, (r.node i).token ≤ recycles + 1
  used : r.nodes ≠ [] → issued ≠ []
  past : ∀ h ∈ issued, h.index < r.nodes.length ∧ 0 < h.token ∧
    h.token ≤ (r.node h.index).token ∧
    (h.index ∉ r.heap → h.token < (r.node h.index).token)
  current : ∀ i ∈ r.heap, ∃ h ∈ issued, h.index = i ∧
    h.token = (r.node i).token ∧ ∀ op, (r.node i).op = some op → h.op = op
  distinct : (issued.map fun h => (h.index, h.token)).Nodup

theorem timerTracked_empty :
    TimerTracked ({} : TimerRegistry Op) [] 0 where
  wf := TimerRegistry.wf_empty
  positive := by simp
  bounded := by simp
  used := by simp
  past := by simp
  current := by simp
  distinct := by simp

theorem advanceToken_of_lt {token : Nat} (htoken : token + 1 < 2 ^ 64) :
    TimerRegistry.advanceToken token = token + 1 := by
  simp [TimerRegistry.advanceToken, FixedWidth.incr_of_lt htoken, invalidToken]

/-- More advances of tokens are no less than fewer. -/
theorem TimerTracked.mono {r : TimerRegistry Op}
    {issued : List (TimerHandle Op)} {m n : Nat} (hr : TimerTracked r issued m)
    (hmn : m ≤ n) : TimerTracked r issued n :=
  { hr with bounded := fun i hi => (hr.bounded i hi).trans (by omega) }

/-- The handle of a new timer is fresh: an old handle of the same node has a
smaller token, as the node was not in the heap. -/
theorem TimerTracked.added {r t : TimerRegistry Op}
    {issued : List (TimerHandle Op)} {n index : Nat} {expiry : Int} {op : Op}
    (hr : TimerTracked r issued n)
    (ht : TimerRegistry.Added r t index expiry (some op)) :
    TimerTracked t (issued ++ [⟨index, (r.node index).token, op⟩]) n := by
  have hout : index ∉ r.heap := fun hin =>
    (List.nodup_cons.mp ht.nodup).1 (List.mem_append_left _ hin)
  have hfresh : ∀ i, r.nodes.length ≤ i → (r.node i).token = 1 := by
    intro i hi
    simp [TimerRegistry.node, List.getElem?_eq_none hi]
  have htoken : ∀ j, (t.node j).token = (r.node j).token := by
    intro j
    rw [ht.node]
    split
    · next heq => rw [heq]
    · rfl
  have hnew : 0 < (r.node index).token ∧ (r.node index).token ≤ n + 1 := by
    by_cases hindex : index < r.nodes.length
    · exact ⟨hr.positive index hindex, hr.bounded index hindex⟩
    · rw [hfresh index (by omega)]
      omega
  have hcases : ∀ i < t.nodes.length, i = index ∨ i < r.nodes.length := by
    intro i hi
    by_cases heq : i = index
    · exact Or.inl heq
    · exact Or.inr (ht.old i hi heq)
  exact {
    wf := ht.wf hr.wf
    positive := by
      intro i hi
      rw [htoken]
      rcases hcases i hi with rfl | hold
      · exact hnew.1
      · exact hr.positive i hold
    bounded := by
      intro i hi
      rw [htoken]
      rcases hcases i hi with rfl | hold
      · exact hnew.2
      · exact hr.bounded i hold
    used := by simp
    past := by
      intro h hh
      rw [htoken]
      rcases List.mem_append.mp hh with hold | hlast
      · obtain ⟨hlt, hpos, hle, hfree⟩ := hr.past h hold
        refine ⟨lt_of_lt_of_le hlt ht.grows, hpos, hle, ?_⟩
        intro hheap
        apply hfree
        intro hin
        exact hheap (ht.heap.mem_iff.mpr (List.mem_append_left _ hin))
      · rw [List.mem_singleton.mp hlast]
        refine ⟨ht.index_lt, hnew.1, le_refl _, ?_⟩
        intro hheap
        exact absurd (ht.heap.mem_iff.mpr (by simp)) hheap
    current := by
      intro i hi
      rw [htoken]
      rcases List.mem_append.mp (ht.heap.mem_iff.mp hi) with hold | hlast
      · obtain ⟨h, hh, hindex, heq, hop⟩ := hr.current i hold
        refine ⟨h, List.mem_append_left _ hh, hindex, heq, ?_⟩
        have hne : i ≠ index := by
          rintro rfl
          exact hout hold
        rw [ht.node, if_neg hne]
        exact hop
      · have heq : i = index := List.mem_singleton.mp hlast
        subst heq
        refine ⟨_, List.mem_append_right _ (List.mem_singleton.mpr rfl), rfl,
          rfl, ?_⟩
        rw [ht.node, if_pos rfl]
        intro other hother
        exact Option.some.inj hother
    distinct := by
      rw [List.map_append, List.nodup_append]
      refine ⟨hr.distinct, by simp, ?_⟩
      intro a ha b hb heq
      obtain ⟨h, hh, rfl⟩ := List.mem_map.mp ha
      simp only [List.map_cons, List.map_nil, List.mem_singleton] at hb
      rw [hb, Prod.mk.injEq] at heq
      obtain ⟨_, _, _, hfree⟩ := hr.past h hh
      have hlt := hfree (heq.1 ▸ hout)
      rw [heq.1, heq.2] at hlt
      exact Nat.lt_irrefl _ hlt }

theorem TimerTracked.recycled {r t : TimerRegistry Op}
    {issued : List (TimerHandle Op)} {n index : Nat}
    (hr : TimerTracked r issued n) (hn : issued.length + (n + 1) < 2 ^ 64)
    (ht : TimerRegistry.Recycled r t index) :
    TimerTracked t issued (n + 1) := by
  have hissued : 0 < issued.length := by
    refine List.length_pos_of_ne_nil (hr.used ?_)
    exact List.ne_nil_of_length_pos (Nat.zero_lt_of_lt ht.index_lt)
  have hadvance : TimerRegistry.advanceToken (r.node index).token =
      (r.node index).token + 1 :=
    advanceToken_of_lt (by have := hr.bounded index ht.index_lt; omega)
  have htoken : ∀ j, (t.node j).token =
      (r.node j).token + if j = index then 1 else 0 := by
    intro j
    rw [ht.node]
    split
    · next heq =>
        rw [heq]
        exact hadvance
    · rfl
  have hheap : ∀ i ∈ t.heap, i ∈ r.heap ∧ i ≠ index := by
    intro i hi
    have hnodup := ht.heap.nodup_iff.mpr (List.nodup_append.mp hr.wf.nodup).1
    refine ⟨ht.heap.mem_iff.mp (List.mem_cons_of_mem _ hi), ?_⟩
    rintro rfl
    exact (List.nodup_cons.mp hnodup).1 hi
  exact {
    wf := ht.wf hr.wf
    positive := by
      intro i hi
      have hpos := hr.positive i (ht.size ▸ hi)
      rw [htoken]
      omega
    bounded := by
      intro i hi
      have hle := hr.bounded i (ht.size ▸ hi)
      rw [htoken]
      split <;> omega
    used := by
      intro hne
      apply hr.used
      rintro hnil
      simp [ht.nodes, hnil] at hne
    past := by
      intro h hh
      obtain ⟨hlt, hpos, hle, hfree⟩ := hr.past h hh
      rw [htoken]
      refine ⟨ht.size ▸ hlt, hpos, by omega, ?_⟩
      intro hout
      by_cases heq : h.index = index
      · simp only [heq, ↓reduceIte]
        rw [heq] at hle
        omega
      · have hnot : h.index ∉ r.heap := by
          intro hin
          rcases List.mem_cons.mp (ht.heap.mem_iff.mpr hin) with h' | h'
          · exact heq h'
          · exact hout h'
        have := hfree hnot
        omega
    current := by
      intro i hi
      obtain ⟨hin, hne⟩ := hheap i hi
      obtain ⟨h, hh, hindex, heq, hop⟩ := hr.current i hin
      refine ⟨h, hh, hindex, ?_, ?_⟩
      · rw [htoken, if_neg hne]
        exact heq
      · rw [ht.node, if_neg hne]
        exact hop
    distinct := hr.distinct }

theorem TimerTracked.cancel {r : TimerRegistry Op}
    {issued : List (TimerHandle Op)} {n : Nat} (hr : TimerTracked r issued n)
    (index token : Nat) : TimerTracked (r.cancel index token).1 issued n := by
  have hwf := TimerRegistry.cancel_wf hr.wf index token
  rw [TimerRegistry.cancel_eq] at hwf ⊢
  split at hwf
  · next hmatch =>
      rw [if_pos hmatch]
      have hnode := TimerRegistry.node_setNode hmatch.2.1
        { r.node index with op := none, state := .cancelled }
      have htoken : ∀ j, ((r.setNode index
          { r.node index with op := none, state := .cancelled }).node j).token =
          (r.node j).token := by
        intro j
        rw [hnode]
        split
        · next heq => rw [heq]
        · rfl
      have hlength : (r.setNode index
          { r.node index with op := none, state := .cancelled }).nodes.length =
          r.nodes.length := by simp [TimerRegistry.setNode]
      exact {
        wf := hwf
        positive := by
          intro i hi
          rw [htoken]
          exact hr.positive i (hlength ▸ hi)
        bounded := by
          intro i hi
          rw [htoken]
          exact hr.bounded i (hlength ▸ hi)
        used := by
          intro hne
          apply hr.used
          rintro hnil
          simp [TimerRegistry.setNode, hnil] at hne
        past := by
          intro h hh
          rw [htoken, hlength]
          exact hr.past h hh
        current := by
          intro i hi
          obtain ⟨h, hh, hindex, heq, hop⟩ := hr.current i hi
          rw [htoken]
          refine ⟨h, hh, hindex, heq, ?_⟩
          intro op
          rw [hnode]
          split
          · simp
          · exact hop op
        distinct := hr.distinct }
  · next hmatch =>
      rw [if_neg hmatch]
      exact hr

theorem TimerTracked.drainAll {r : TimerRegistry Op}
    {issued : List (TimerHandle Op)} {n : Nat} (hr : TimerTracked r issued n)
    (hn : issued.length + (n + r.nodes.length) < 2 ^ 64) :
    TimerTracked r.drainAll.1 issued (n + r.nodes.length) := by
  by_cases hempty : r.nodes.isEmpty = true
  · have hsame : r.drainAll.1 = r := by simp [TimerRegistry.drainAll, hempty]
    rw [hsame]
    exact hr.mono (by omega)
  · have hused : issued ≠ [] := by
      apply hr.used
      rintro hnil
      simp [hnil] at hempty
    have hissued : 0 < issued.length := List.length_pos_of_ne_nil hused
    have hlength : r.drainAll.1.nodes.length = r.nodes.length := by
      simp [TimerRegistry.drainAll, hempty]
    have hheap : r.drainAll.1.heap = [] := by
      simp [TimerRegistry.drainAll, hempty]
    have htoken : ∀ i < r.nodes.length,
        (r.drainAll.1.node i).token = (r.node i).token + 1 := by
      intro i hi
      rw [TimerRegistry.drainAll_node r hi]
      exact advanceToken_of_lt (by have := hr.bounded i hi; omega)
    exact {
      wf := TimerRegistry.drainAll_wf hr.wf
      positive := by
        intro i hi
        rw [hlength] at hi
        rw [htoken i hi]
        omega
      bounded := by
        intro i hi
        rw [hlength] at hi
        have hle := hr.bounded i hi
        rw [htoken i hi]
        omega
      used := fun _ => hused
      past := by
        intro h hh
        obtain ⟨hlt, hpos, hle, _⟩ := hr.past h hh
        rw [hlength, htoken _ hlt]
        exact ⟨hlt, hpos, by omega, fun _ => by omega⟩
      current := by simp [hheap]
      distinct := hr.distinct }

/-- `process_expired` advances one token for every entry that leaves the
heap. -/
theorem TimerTracked.processExpired (algorithms : BinaryHeap.Algorithms Nat)
    {r : TimerRegistry Op} {issued : List (TimerHandle Op)} {n : Nat}
    (hr : TimerTracked r issued n) (clock : Nat → Int)
    (hn : issued.length + (n + (r.heap.length -
      (r.processExpired algorithms clock).1.heap.length)) < 2 ^ 64) :
    TimerTracked (r.processExpired algorithms clock).1 issued
      (n + (r.heap.length -
        (r.processExpired algorithms clock).1.heap.length)) := by
  let P : TimerRegistry Op → Prop := fun t => t.heap.length ≤ r.heap.length ∧
    (issued.length + (n + (r.heap.length - t.heap.length)) < 2 ^ 64 →
      TimerTracked t issued (n + (r.heap.length - t.heap.length)))
  have hstart : P r := ⟨le_refl _, fun _ => hr.mono (by omega)⟩
  have hkeep : ∀ a b index, a.Wf → P a → TimerRegistry.Recycled a b index →
      P b := by
    intro a b index _ hp hb
    have hlength := hb.heap.length_eq
    rw [List.length_cons] at hlength
    obtain ⟨hle, htracked⟩ := hp
    refine ⟨by omega, ?_⟩
    intro hbudget
    have hstep : n + (r.heap.length - b.heap.length) =
        n + (r.heap.length - a.heap.length) + 1 := by omega
    rw [hstep] at hbudget ⊢
    exact (htracked (by omega)).recycled hbudget hb
  exact (TimerRegistry.expireLoop_induct algorithms clock hkeep _ _ r hr.wf
    hstart).2.2 hn

/-- Cancelling by a handle removes the operation of that handle, if it is still
stored, and no operation otherwise. -/
theorem TimerTracked.cancel_removes {r : TimerRegistry Op}
    {issued : List (TimerHandle Op)} {n : Nat} (hr : TimerTracked r issued n)
    (hops : (issued.map TimerHandle.op).Nodup) (index token : Nat) (op : Op) :
    (r.cancel index token).2.op = some op ↔
      ⟨index, token, op⟩ ∈ issued ∧ TimerStores r op := by
  rw [TimerRegistry.cancel_eq]
  constructor
  · intro hremoved
    split at hremoved
    · next hmatch =>
        obtain ⟨_, hindex, htoken, hstate⟩ := hmatch
        obtain ⟨h, hh, rfl, heq, hop⟩ :=
          hr.current index (hr.wf.mem_heap_of_pending hindex hstate)
        refine ⟨?_, h.index, hindex, hremoved⟩
        rw [← hop op hremoved, ← htoken, ← heq]
        exact hh
    · simp at hremoved
  · rintro ⟨hissued, j, hj, hstored⟩
    have hin : j ∈ r.heap := by
      by_contra hout
      have hidle := (hr.wf.idle j hj hout).2
      rw [hstored] at hidle
      simp at hidle
    have hpending : (r.node j).state = .pending := by
      rcases hr.wf.queued j hin with ⟨hpending, _⟩ | ⟨_, hnone⟩
      · exact hpending
      · rw [hstored] at hnone
        simp at hnone
    obtain ⟨h, hh, hindex, htoken, hop⟩ := hr.current j hin
    have hsame : h = ⟨index, token, op⟩ :=
      List.inj_on_of_nodup_map hops hh hissued (hop op hstored)
    subst hsame
    simp only at hindex htoken
    subst hindex htoken
    have hpos := (hr.past _ hissued).2.1
    have hvalid : (r.node index).token ≠ invalidToken :=
      Nat.pos_iff_ne_zero.mp hpos
    rw [if_pos ⟨hvalid, hj, rfl, hpending⟩]
    exact hstored

/-! ### Descriptor handles -/

/-- The tokens of the slots against the handles issued so far. -/
structure FdTracked (r : FdRegistry Op) (issued : List (FdHandle Op)) :
    Prop where
  next : r.nextToken = FixedWidth.truncate 64 (issued.length + 1)
  tokens : issued.map FdHandle.token = List.range' 1 issued.length
  current : ∀ (i : Nat) kind op, (r.slotAt i kind).op = some op →
    ⟨i, kind, (r.slotAt i kind).token, op⟩ ∈ issued

theorem fdTracked_empty : FdTracked ({} : FdRegistry Op) [] where
  next := rfl
  tokens := rfl
  current := by
    intro i kind op hop
    cases kind <;>
      simp [FdRegistry.slotAt, FdRegistry.entry, FdRegistry.FdOps.slotFor] at hop

theorem FdTracked.onlyRemoves {r t : FdRegistry Op}
    {issued : List (FdHandle Op)} (hr : FdTracked r issued)
    (ht : FdRegistry.OnlyRemoves r t ∧ t.nextToken = r.nextToken) :
    FdTracked t issued where
  next := ht.2.trans hr.next
  tokens := hr.tokens
  current := by
    intro i kind op hop
    obtain ⟨hold, htoken⟩ := ht.1 i kind op hop
    rw [htoken]
    exact hr.current i kind op hold

theorem FdTracked.stored {r : FdRegistry Op} {issued : List (FdHandle Op)}
    (hr : FdTracked r issued) {fd : Int} (hfd : 0 ≤ fd) (op : Op)
    {kind : FdEventKind} (hready : (r.slotAt fd.toNat kind).ready = false)
    (hn : issued.length + 1 < 2 ^ 64) :
    FdTracked (r.registerImpl fd (some op) kind).1
      (issued ++ [⟨fd, kind, (r.registerImpl fd (some op) kind).2.token, op⟩]) := by
  have hnext : r.nextToken = issued.length + 1 := by
    rw [hr.next, FixedWidth.truncate_of_lt hn]
  rw [FdRegistry.registerImpl_some r hfd, hready]
  simp only [Bool.false_eq_true, ↓reduceIte]
  exact {
    next := by
      simp only [List.length_append, List.length_singleton]
      rw [hr.next, FixedWidth.incr_truncate]
    tokens := by
      simp only [List.map_append, List.map_cons, List.map_nil,
        List.length_append, List.length_singleton]
      rw [List.range'_concat, hr.tokens, hnext, Nat.one_mul, Nat.add_comm 1]
    current := by
      intro i other stored hstored
      have hentry := FdRegistry.entry_put r fd.toNat i
        ((r.entry fd.toNat).markTracked.setSlot
          ((r.slotAt fd.toNat kind).store op r.nextToken) kind)
      simp only [FdRegistry.slotAt, FdRegistry.entry] at hstored hentry ⊢
      rw [hentry] at hstored ⊢
      by_cases hi : i = fd.toNat
      · subst hi
        simp only [↓reduceIte, FdRegistry.FdOps.slotFor_setSlot] at hstored ⊢
        by_cases hkind : other = kind
        · subst hkind
          simp only [↓reduceIte, FdRegistry.Slot.store,
            Option.some.injEq] at hstored ⊢
          subst hstored
          rw [Int.toNat_of_nonneg hfd]
          simp
        · simp only [hkind, ↓reduceIte,
            FdRegistry.FdOps.slotFor_markTracked] at hstored ⊢
          exact List.mem_append_left _
            (hr.current fd.toNat other stored hstored)
      · simp only [hi, ↓reduceIte] at hstored ⊢
        exact List.mem_append_left _ (hr.current i other stored hstored) }

theorem FdTracked.distinct {r : FdRegistry Op} {issued : List (FdHandle Op)}
    (hr : FdTracked r issued) : (issued.map FdHandle.token).Nodup := by
  rw [hr.tokens]
  exact List.nodup_range'

theorem FdTracked.valid {r : FdRegistry Op} {issued : List (FdHandle Op)}
    (hr : FdTracked r issued) {h : FdHandle Op} (hh : h ∈ issued) :
    h.token ≠ invalidToken := by
  have hmem : h.token ∈ List.range' 1 issued.length := by
    rw [← hr.tokens]
    exact List.mem_map_of_mem hh
  rw [List.mem_range'_1] at hmem
  exact Nat.pos_iff_ne_zero.mp hmem.1

theorem FdTracked.cancel_removes {r : FdRegistry Op}
    {issued : List (FdHandle Op)} (hr : FdTracked r issued)
    (hops : (issued.map FdHandle.op).Nodup) (fd : Int) (kind : FdEventKind)
    (token : Nat) (op : Op) :
    (r.cancel fd kind token).2.removed = some op ↔
      ⟨fd, kind, token, op⟩ ∈ issued ∧ r.Stores op := by
  rw [FdRegistry.cancel_eq]
  constructor
  · intro hremoved
    split at hremoved
    · next hmatch =>
        obtain ⟨hfd, _, htoken⟩ := hmatch
        have hcurrent := hr.current fd.toNat kind op hremoved
        rw [htoken, Int.toNat_of_nonneg hfd] at hcurrent
        exact ⟨hcurrent, fd.toNat, kind, hremoved⟩
    · simp at hremoved
  · rintro ⟨hissued, i, other, hstored⟩
    have hsame := List.inj_on_of_nodup_map hops (hr.current i other op hstored)
      hissued rfl
    simp only [FdHandle.mk.injEq] at hsame
    obtain ⟨rfl, rfl, htoken, _⟩ := hsame
    rw [Int.toNat_natCast, if_pos ⟨by omega, by simp [hstored], htoken⟩]
    exact hstored

/-! ### Exactness -/

/-- A call of `timer_registry::cancel` removes the operation of its handle or
leaves the registry as it is; of the rest of the registry nothing changes. -/
structure TimerCancelExact (r : TimerRegistry Op)
    (issued : List (TimerHandle Op)) (index token : Nat) : Prop where
  removes : ∀ op, (r.cancel index token).2.op = some op ↔
    ⟨index, token, op⟩ ∈ issued ∧ TimerStores r op
  nothing : (r.cancel index token).2.op = none →
    r.cancel index token = (r, {})
  others : ∀ j, j ≠ index → (r.cancel index token).1.node j = r.node j
  emptied : (r.cancel index token).2.op.isSome →
    (r.cancel index token).1.node index =
      { r.node index with op := none, state := .cancelled }
  rest : (r.cancel index token).1.heap = r.heap ∧
    (r.cancel index token).1.free = r.free ∧
    (r.cancel index token).1.activeCount = r.activeCount ∧
    (r.cancel index token).1.nodes.length = r.nodes.length

/-- The same for `fd_registry::cancel`; besides the slot only the count of
active operations changes. -/
structure FdCancelExact (r : FdRegistry Op) (issued : List (FdHandle Op))
    (fd : Int) (kind : FdEventKind) (token : Nat) : Prop where
  removes : ∀ op, (r.cancel fd kind token).2.removed = some op ↔
    ⟨fd, kind, token, op⟩ ∈ issued ∧ r.Stores op
  nothing : (r.cancel fd kind token).2.removed = none →
    r.cancel fd kind token = (r, {})
  others : ∀ i other, (i ≠ fd.toNat ∨ other ≠ kind) →
    (r.cancel fd kind token).1.slotAt i other = r.slotAt i other
  emptied : (r.cancel fd kind token).2.removed.isSome →
    (r.cancel fd kind token).1.slotAt fd.toNat kind =
        (r.slotAt fd.toNat kind).clear ∧
      (r.cancel fd kind token).1.activeCount =
        FixedWidth.decr 64 r.activeCount
  rest : (r.cancel fd kind token).1.nextToken = r.nextToken ∧
    ∀ i, ((r.cancel fd kind token).1.entry i).tracked = (r.entry i).tracked

theorem TimerTracked.cancelExact {r : TimerRegistry Op}
    {issued : List (TimerHandle Op)} {n : Nat} (hr : TimerTracked r issued n)
    (hops : (issued.map TimerHandle.op).Nodup) (index token : Nat) :
    TimerCancelExact r issued index token := by
  refine ⟨hr.cancel_removes hops index token, ?_, ?_, ?_, ?_⟩
  · rw [TimerRegistry.cancel_eq]
    split
    · next hmatch =>
        intro (hnone : (r.node index).op = none)
        have hin := hr.wf.mem_heap_of_pending hmatch.2.1 hmatch.2.2.2
        rcases hr.wf.queued index hin with ⟨_, hsome⟩ | ⟨hcancelled, _⟩
        · rw [hnone] at hsome
          simp at hsome
        · rw [hmatch.2.2.2] at hcancelled
          exact absurd hcancelled (by decide)
    · intro _
      rfl
  · intro j hj
    rw [TimerRegistry.cancel_eq]
    split
    · next hmatch => rw [TimerRegistry.node_setNode hmatch.2.1, if_neg hj]
    · rfl
  · rw [TimerRegistry.cancel_eq]
    split
    · next hmatch =>
        intro _
        rw [TimerRegistry.node_setNode hmatch.2.1, if_pos rfl]
    · simp
  · rw [TimerRegistry.cancel_eq]
    split
    · simp [TimerRegistry.setNode]
    · simp

theorem FdTracked.cancelExact {r : FdRegistry Op} {issued : List (FdHandle Op)}
    (hr : FdTracked r issued) (hops : (issued.map FdHandle.op).Nodup)
    (fd : Int) (kind : FdEventKind) (token : Nat) :
    FdCancelExact r issued fd kind token := by
  refine ⟨hr.cancel_removes hops fd kind token, ?_, ?_, ?_, ?_⟩
  · rw [FdRegistry.cancel_eq]
    split
    · next hmatch =>
        intro (hnone : (r.slotAt fd.toNat kind).op = none)
        have hsome := hmatch.2.1
        rw [hnone] at hsome
        simp at hsome
    · intro _
      rfl
  · intro i other hother
    rw [FdRegistry.cancel_eq]
    split
    · simp only [FdRegistry.slotAt, FdRegistry.countOut_entry,
        FdRegistry.entry_put]
      split
      · next hi =>
          have hkind : other ≠ kind := hother.resolve_left (fun h => h hi)
          rw [FdRegistry.FdOps.slotFor_setSlot, if_neg hkind, hi]
      · rfl
    · rfl
  · rw [FdRegistry.cancel_eq]
    split
    · next hmatch =>
        intro _
        have hsome := hmatch.2.1
        constructor
        · simp only [FdRegistry.slotAt, FdRegistry.countOut_entry,
            FdRegistry.entry_put, ↓reduceIte,
            FdRegistry.FdOps.slotFor_setSlot]
        · simp [FdRegistry.countOut, hsome, FdRegistry.put]
    · simp
  · rw [FdRegistry.cancel_eq]
    split
    · refine ⟨by simp, ?_⟩
      intro i
      rw [FdRegistry.countOut_entry, FdRegistry.entry_put]
      split
      · next hi => simp [hi]
      · rfl
    · exact ⟨rfl, fun _ => rfl⟩

/-! ### Runs -/

/-- The registries, the handles they issued, and how often a token was
advanced. -/
structure State (Op : Type u) where
  timers : TimerRegistry Op := {}
  fds : FdRegistry Op := {}
  timerHandles : List (TimerHandle Op) := []
  fdHandles : List (FdHandle Op) := []
  recycles : Nat := 0
deriving DecidableEq, Repr

/-- The operations for which a handle was issued. -/
def State.ops (s : State Op) : List Op :=
  s.timerHandles.map TimerHandle.op ++ s.fdHandles.map FdHandle.op

/-- Registrations and slot recycles so far. -/
def State.uses (s : State Op) : Nat :=
  s.timerHandles.length + s.fdHandles.length + s.recycles

inductive Action (Op : Type u) where
  | addTimer (expiry : Int) (op : Op)
  | registerFd (fd : Int) (kind : FdEventKind) (op : Option Op)
  | cancelTimer (index token : Nat)
  | cancelFd (fd : Int) (kind : FdEventKind) (token : Nat)
  | processExpired (clock : Nat → Int)
  | takeReady (fd : Int) (canRead canWrite : Bool)
  | deregister (fd : Int)
  | track (fd : Int)
  | drainTimers
  | drainFds

variable [DecidableEq Op]

/-- One call on a registry.  An operation object is owned by one registration,
so it is registered again by no later call. -/
def step (algorithms : BinaryHeap.Algorithms Nat) (s : State Op) :
    Action Op → Option (State Op)
  | .addTimer expiry op =>
      if op ∈ s.ops then none
      else
        let (timers, result) := s.timers.addTimer algorithms expiry (some op)
        some { s with
          timers
          timerHandles := s.timerHandles ++ [⟨result.index, result.token, op⟩] }
  | .registerFd fd kind none =>
      some { s with fds := (s.fds.registerImpl fd none kind).1 }
  | .registerFd fd kind (some op) =>
      if op ∈ s.ops then none
      else
        let (fds, result) := s.fds.registerImpl fd (some op) kind
        if fd < 0 ∨ result.readyNow.isSome then some { s with fds }
        else
          some { s with
            fds
            fdHandles := s.fdHandles ++ [⟨fd, kind, result.token, op⟩] }
  | .cancelTimer index token =>
      some { s with timers := (s.timers.cancel index token).1 }
  | .cancelFd fd kind token =>
      some { s with fds := (s.fds.cancel fd kind token).1 }
  | .processExpired clock =>
      let timers := (s.timers.processExpired algorithms clock).1
      some { s with
        timers
        recycles := s.recycles + (s.timers.heap.length - timers.heap.length) }
  | .takeReady fd canRead canWrite =>
      some { s with fds := (s.fds.takeReady fd canRead canWrite).1 }
  | .deregister fd => some { s with fds := (s.fds.deregister fd).1 }
  | .track fd => some { s with fds := s.fds.track fd }
  | .drainTimers =>
      some { s with
        timers := s.timers.drainAll.1
        recycles := s.recycles + s.timers.nodes.length }
  | .drainFds => some { s with fds := s.fds.drainAll.1 }

def system (Op : Type u) [DecidableEq Op]
    (algorithms : BinaryHeap.Algorithms Nat) :
    TransitionSystem (State Op) (Action Op) where
  start := {}
  step := step algorithms

/-- No timer is added while every index of its type is taken. -/
def avoidsWrap (s : State Op) : Action Op → Bool
  | .addTimer _ _ => s.timers.hasRoom
  | _ => true

/-- Handles are unique and valid, and each reaches its own operation only. -/
structure Exact (s : State Op) : Prop where
  timerDistinct : (s.timerHandles.map fun h => (h.index, h.token)).Nodup
  timerValid : ∀ h ∈ s.timerHandles, h.token ≠ invalidToken
  fdDistinct : (s.fdHandles.map FdHandle.token).Nodup
  fdValid : ∀ h ∈ s.fdHandles, h.token ≠ invalidToken
  timerCancel : ∀ index token,
    TimerCancelExact s.timers s.timerHandles index token
  fdCancel : ∀ fd kind token, FdCancelExact s.fds s.fdHandles fd kind token

structure Inv (s : State Op) : Prop where
  timers : TimerTracked s.timers s.timerHandles s.recycles
  fds : FdTracked s.fds s.fdHandles
  ops : s.ops.Nodup

theorem start_inv (algorithms : BinaryHeap.Algorithms Nat) :
    Inv (system Op algorithms).start :=
  ⟨timerTracked_empty, fdTracked_empty, by simp [system, State.ops]⟩

omit [DecidableEq Op] in
theorem Inv.exact {s : State Op} (hs : Inv s) : Exact s := by
  have hops := List.nodup_append.mp hs.ops
  exact {
    timerDistinct := hs.timers.distinct
    timerValid := fun h hh =>
      Nat.pos_iff_ne_zero.mp (hs.timers.past h hh).2.1
    fdDistinct := hs.fds.distinct
    fdValid := fun h hh => hs.fds.valid hh
    timerCancel := hs.timers.cancelExact hops.1
    fdCancel := hs.fds.cancelExact hops.2.1 }

theorem addTimer_inv (algorithms : BinaryHeap.Algorithms Nat) {s t : State Op}
    {expiry : Int} {op : Op} (hs : Inv s) (hroom : s.timers.hasRoom = true)
    (hstep : step algorithms s (.addTimer expiry op) = some t) : Inv t := by
  simp only [step] at hstep
  split at hstep
  · simp at hstep
  · next hfresh =>
      obtain rfl := Option.some.inj hstep
      obtain ⟨hadded, htoken⟩ := TimerRegistry.addTimer_spec algorithms
        hs.timers.wf hroom expiry (some op)
      refine ⟨?_, hs.fds, ?_⟩
      · rw [htoken]
        exact hs.timers.added hadded
      · have hperm : (s.timerHandles.map TimerHandle.op ++ [op] ++
            s.fdHandles.map FdHandle.op).Perm (op :: s.ops) := by
          rw [List.append_assoc]
          exact List.perm_middle
        simp only [State.ops, List.map_append, List.map_cons, List.map_nil]
        exact hperm.nodup_iff.mpr (List.nodup_cons.mpr ⟨hfresh, hs.ops⟩)

theorem registerFd_inv (algorithms : BinaryHeap.Algorithms Nat)
    {s t : State Op} {fd : Int} {kind : FdEventKind} {op : Op} (hs : Inv s)
    (hstep : step algorithms s (.registerFd fd kind (some op)) = some t)
    (huses : t.uses < 2 ^ 64) : Inv t := by
  simp only [step] at hstep
  split at hstep
  · simp at hstep
  · next hfresh =>
      by_cases hfd : fd < 0
      · simp only [hfd, true_or, ↓reduceIte, Option.some.injEq] at hstep
        subst hstep
        refine ⟨hs.timers, ?_, hs.ops⟩
        simpa [FdRegistry.registerImpl, hfd] using hs.fds
      · have hpos : 0 ≤ fd := by omega
        cases hready : (s.fds.slotAt fd.toNat kind).ready with
        | true =>
            have hnow : (s.fds.registerImpl fd (some op) kind).2.readyNow =
                some op := by
              rw [FdRegistry.registerImpl_some _ hpos, if_pos hready]
            simp only [hnow, Option.isSome_some, or_true, ↓reduceIte,
              Option.some.injEq] at hstep
            subst hstep
            exact ⟨hs.timers, hs.fds.onlyRemoves
              (FdRegistry.registerImpl_ready_onlyRemoves _ hpos op hready),
              hs.ops⟩
        | false =>
            have hnow : (s.fds.registerImpl fd (some op) kind).2.readyNow =
                none := by
              rw [FdRegistry.registerImpl_some _ hpos]
              simp [hready]
            simp only [hfd, hnow, Option.isSome_none, Bool.false_eq_true,
              or_self, ↓reduceIte, Option.some.injEq] at hstep
            subst hstep
            simp only [State.uses, List.length_append,
              List.length_singleton] at huses
            refine ⟨hs.timers, hs.fds.stored hpos op hready (by omega), ?_⟩
            have hperm : (s.ops ++ [op]).Perm (op :: s.ops) :=
              List.perm_append_singleton op s.ops
            simp only [State.ops, List.map_append, List.map_cons, List.map_nil]
            rw [← List.append_assoc]
            exact hperm.nodup_iff.mpr (List.nodup_cons.mpr ⟨hfresh, hs.ops⟩)

theorem step_inv (algorithms : BinaryHeap.Algorithms Nat) {s t : State Op}
    {a : Action Op} (hs : Inv s) (havoids : avoidsWrap s a = true)
    (hstep : step algorithms s a = some t) (huses : t.uses < 2 ^ 64) :
    Inv t := by
  cases a with
  | addTimer expiry op => exact addTimer_inv algorithms hs havoids hstep
  | registerFd fd kind op =>
      cases op with
      | none =>
          obtain rfl := Option.some.inj hstep
          exact ⟨hs.timers, hs.fds.onlyRemoves
            (FdRegistry.registerImpl_none_onlyRemoves _ fd kind), hs.ops⟩
      | some op => exact registerFd_inv algorithms hs hstep huses
  | cancelTimer index token =>
      obtain rfl := Option.some.inj hstep
      exact ⟨hs.timers.cancel index token, hs.fds, hs.ops⟩
  | cancelFd fd kind token =>
      obtain rfl := Option.some.inj hstep
      exact ⟨hs.timers, hs.fds.onlyRemoves
        (FdRegistry.cancel_onlyRemoves _ fd kind token), hs.ops⟩
  | processExpired clock =>
      obtain rfl := Option.some.inj hstep
      simp only [State.uses] at huses
      exact ⟨hs.timers.processExpired algorithms clock (by omega), hs.fds,
        hs.ops⟩
  | takeReady fd canRead canWrite =>
      obtain rfl := Option.some.inj hstep
      exact ⟨hs.timers, hs.fds.onlyRemoves
        (FdRegistry.takeReady_onlyRemoves _ fd canRead canWrite), hs.ops⟩
  | deregister fd =>
      obtain rfl := Option.some.inj hstep
      exact ⟨hs.timers, hs.fds.onlyRemoves
        (FdRegistry.deregister_onlyRemoves _ fd), hs.ops⟩
  | track fd =>
      obtain rfl := Option.some.inj hstep
      exact ⟨hs.timers, hs.fds.onlyRemoves
        (FdRegistry.track_onlyRemoves _ fd), hs.ops⟩
  | drainTimers =>
      obtain rfl := Option.some.inj hstep
      simp only [State.uses] at huses
      exact ⟨hs.timers.drainAll (by omega), hs.fds, hs.ops⟩
  | drainFds =>
      obtain rfl := Option.some.inj hstep
      exact ⟨hs.timers, hs.fds.onlyRemoves
        (FdRegistry.drainAll_onlyRemoves _), hs.ops⟩

theorem uses_mono (algorithms : BinaryHeap.Algorithms Nat) {s t : State Op}
    {a : Action Op} (hstep : step algorithms s a = some t) :
    s.uses ≤ t.uses := by
  unfold step at hstep
  split at hstep
  all_goals try split at hstep
  all_goals try simp only at hstep
  all_goals try split at hstep
  all_goals simp only [reduceCtorEq, Option.some.injEq] at hstep
  all_goals subst hstep
  all_goals
    simp only [State.uses, List.length_append, List.length_singleton]
    omega

/-- In every run that adds no timer when all indices are taken, and that made
fewer than `2 ^ 64` registrations and slot recycles, handles are exact. -/
theorem exact_of_avoidsWrap (algorithms : BinaryHeap.Algorithms Nat)
    {s : State Op}
    (hs : (system Op algorithms).ReachableUnder
      (fun s a => avoidsWrap s a = true) s) (huses : s.uses < 2 ^ 64) :
    Exact s := by
  let Bounded : State Op → Prop := fun s => s.uses < 2 ^ 64 → Inv s
  have hstart : Bounded (system Op algorithms).start :=
    fun _ => start_inv algorithms
  have hkeep : ∀ s a t, Bounded s → avoidsWrap s a = true →
      (system Op algorithms).step s a = some t → Bounded t := by
    intro s a t hbounded havoids hstep huses
    have hless := lt_of_le_of_lt (uses_mono algorithms hstep) huses
    exact step_inv algorithms (hbounded hless) havoids hstep huses
  exact (hs.invariant hstart hkeep huses).exact

/-- A handle is used after its timer fired and its node was taken again. -/
def staleCancel : List (Action Nat) :=
  [.addTimer 5 0, .registerFd 3 .read (some 1), .processExpired fun _ => 7,
    .addTimer 9 2, .cancelTimer 0 1]

theorem exact_staleCancel :
    ∃ s : State Nat, s.timerHandles = [⟨0, 1, 0⟩, ⟨0, 2, 2⟩] ∧
      s.fdHandles = [⟨3, .read, 1, 1⟩] ∧ s.uses < 2 ^ 64 ∧ Exact s := by
  obtain ⟨s, hs, hend⟩ := TransitionSystem.exists_reachableUnder_of_execUnder
    (system Nat (BinaryHeap.sorted Nat)) (fun s a => avoidsWrap s a = true)
    staleCancel
    (fun s => s.timerHandles == [⟨0, 1, 0⟩, ⟨0, 2, 2⟩] &&
      s.fdHandles == [⟨3, .read, 1, 1⟩] && s.recycles == 1) (by decide)
  simp only [Bool.and_eq_true, beq_iff_eq] at hend
  have huses : s.uses < 2 ^ 64 := by
    simp [State.uses, hend.1.1, hend.1.2, hend.2]
  exact ⟨s, hend.1.1, hend.1.2, huses,
    exact_of_avoidsWrap (BinaryHeap.sorted Nat) hs huses⟩

theorem step_addTimer (algorithms : BinaryHeap.Algorithms Nat) {s : State Op}
    {op : Op} (hfresh : op ∉ s.ops) (expiry : Int) :
    (system Op algorithms).step s (.addTimer expiry op) =
      some { s with
        timers := (s.timers.addTimer algorithms expiry (some op)).1
        timerHandles := s.timerHandles ++
          [⟨(s.timers.addTimer algorithms expiry (some op)).2.index,
            (s.timers.addTimer algorithms expiry (some op)).2.token, op⟩] } := by
  simp only [system, step, if_neg hfresh]

/-- The first `n` timers take the nodes in order, all with token `1`. -/
theorem exists_reachable_filled (algorithms : BinaryHeap.Algorithms Nat)
    (n : Nat) (hn : n ≤ 2 ^ 32) :
    ∃ s : State Nat, (system Nat algorithms).Reachable s ∧
      s.timers.nodes = TimerRegistry.filled n ∧ s.timers.free = [] ∧
      s.timerHandles = (List.range n).map (fun i => ⟨i, 1, i⟩) ∧
      s.fdHandles = [] ∧ s.recycles = 0 := by
  induction n with
  | zero => exact ⟨{}, .start, rfl, rfl, rfl, rfl, rfl⟩
  | succ n ih =>
      obtain ⟨s, hs, hnodes, hfree, hissued, hfds, hrecycles⟩ := ih (by omega)
      have hlength : s.timers.nodes.length = n := by
        simp [hnodes, TimerRegistry.filled]
      obtain ⟨hnodes', hfree', hresult⟩ := TimerRegistry.addTimer_of_free_nil
        algorithms hfree (by omega) n
      have hfresh : n ∉ s.ops := by
        simp [State.ops, hissued, hfds]
      refine ⟨_, .step hs trivial (step_addTimer algorithms hfresh 0), ?_,
        hfree', ?_, hfds, hrecycles⟩
      · rw [hnodes', hnodes, TimerRegistry.filled_succ]
      · simp [hresult, hlength, hissued, List.range_succ]

/-- With `2 ^ 32` timers pending, the next one is issued the handle of the
first, which is still pending. -/
theorem not_exact_fullIndex :
    ¬ ∀ s : State Nat,
      (system Nat (BinaryHeap.sorted Nat)).Reachable s → s.uses < 2 ^ 64 →
        Exact s := by
  intro hall
  obtain ⟨s, hs, hnodes, hfree, hissued, hfds, hrecycles⟩ :=
    exists_reachable_filled (BinaryHeap.sorted Nat) (2 ^ 32) (le_refl _)
  have hlength : s.timers.nodes.length = 2 ^ 32 := by
    rw [hnodes, TimerRegistry.filled, List.length_map, List.length_range]
  have htoken : (s.timers.node 0).token = 1 := by
    rw [TimerRegistry.node, hnodes, TimerRegistry.filled_getD (by omega)]
  obtain ⟨_, hresult⟩ := TimerRegistry.addTimer_of_full
    (BinaryHeap.sorted Nat) hfree hlength (2 ^ 32)
  rw [htoken] at hresult
  have hfresh : 2 ^ 32 ∉ s.ops := by
    rw [State.ops, hissued, hfds, List.map_map, List.map_nil, List.append_nil,
      List.mem_map]
    rintro ⟨i, hi, heq⟩
    rw [List.mem_range] at hi
    simp only [Function.comp_apply] at heq
    omega
  have hexact := hall _
    (.step hs trivial (step_addTimer (BinaryHeap.sorted Nat) hfresh 0))
    (by
      simp only [State.uses, hissued, hfds, hrecycles, List.length_append,
        List.length_map, List.length_range, List.length_singleton,
        List.length_nil]
      omega)
  have hdistinct := hexact.timerDistinct
  rw [hresult, hissued, List.map_append, List.map_map,
    List.nodup_append] at hdistinct
  refine hdistinct.2.2 (0, 1) ?_ (0, 1) (by simp) rfl
  rw [List.mem_map]
  exact ⟨0, List.mem_range.mpr (by omega), rfl⟩

end Handles

end Iocoro
