/-
`fd_registry`: the read and write operation waiting on each file descriptor.
Every function acts on the entry of one descriptor, so all facts about them
come from what `put` does to the table.
-/
import Iocoro.Inventory
import Iocoro.FixedWidth
import Iocoro.ReactorTypes

namespace Iocoro

universe u

namespace FdRegistry

variable {Op : Type u}

structure Slot (Op : Type u) where
  op : Option Op := none
  token : Nat := invalidToken
  ready : Bool := false
deriving DecidableEq, Repr

/-- The slot after its operation has left. -/
def Slot.clear (slot : Slot Op) : Slot Op :=
  { slot with op := none, token := invalidToken }

def Slot.store (slot : Slot Op) (op : Op) (token : Nat) : Slot Op :=
  { slot with op := some op, token := token }

/-- The slot after its latched readiness has been used. -/
def Slot.consume (slot : Slot Op) : Slot Op := { slot with ready := false }

/-- What readiness does to a slot: it takes the waiting operation, or is
latched for the next one. -/
def Slot.signal (slot : Slot Op) : Slot Op :=
  if slot.op.isSome then slot.clear else { slot with ready := true }

theorem Slot.signal_op (slot : Slot Op) : slot.signal.op = none := by
  unfold Slot.signal
  split
  · rfl
  · next hnone => simpa using hnone

structure FdOps (Op : Type u) where
  read : Slot Op := {}
  write : Slot Op := {}
  tracked : Bool := false
deriving DecidableEq, Repr

/-- `slot_for`. -/
def FdOps.slotFor (e : FdOps Op) : FdEventKind → Slot Op
  | .read => e.read
  | .write => e.write

def FdOps.setSlot (e : FdOps Op) (slot : Slot Op) : FdEventKind → FdOps Op
  | .read => { e with read := slot }
  | .write => { e with write := slot }

def FdOps.markTracked (e : FdOps Op) : FdOps Op := { e with tracked := true }

/-- The operations an entry stores. -/
def FdOps.ops (e : FdOps Op) : List Op :=
  e.read.op.toList ++ e.write.op.toList

theorem FdOps.slotFor_setSlot (e : FdOps Op) (slot : Slot Op)
    (kind other : FdEventKind) :
    (e.setSlot slot kind).slotFor other =
      if other = kind then slot else e.slotFor other := by
  cases kind <;> cases other <;> rfl

@[simp] theorem FdOps.setSlot_tracked (e : FdOps Op) (slot : Slot Op)
    (kind : FdEventKind) : (e.setSlot slot kind).tracked = e.tracked := by
  cases kind <;> rfl

@[simp] theorem FdOps.slotFor_markTracked (e : FdOps Op) (kind : FdEventKind) :
    e.markTracked.slotFor kind = e.slotFor kind := by
  cases kind <;> rfl

@[simp] theorem FdOps.ops_markTracked (e : FdOps Op) :
    e.markTracked.ops = e.ops := rfl

theorem FdOps.count_ops_setSlot [DecidableEq Op] (e : FdOps Op)
    (slot : Slot Op) (kind : FdEventKind) (op : Op) :
    (e.setSlot slot kind).ops.count op +
        (e.slotFor kind).op.toList.count op =
      e.ops.count op + slot.op.toList.count op := by
  cases kind <;>
    simp only [FdOps.ops, FdOps.setSlot, FdOps.slotFor, List.count_append] <;>
    omega

end FdRegistry

open FdRegistry

structure FdRegistry (Op : Type u) where
  operations : List (FdOps Op) := []
  nextToken : Nat := 1
  activeCount : Nat := 0
deriving DecidableEq, Repr

namespace FdRegistry

variable {Op : Type u}

structure RegisterResult (Op : Type u) where
  token : Nat := invalidToken
  replaced : Option Op := none
  readyNow : Option Op := none
deriving DecidableEq, Repr

structure CancelResult (Op : Type u) where
  removed : Option Op := none
  matched : Bool := false
deriving DecidableEq, Repr

/-- `ready_result` and `deregister_result`. -/
structure PairResult (Op : Type u) where
  read : Option Op := none
  write : Option Op := none
deriving DecidableEq, Repr

def PairResult.get (result : PairResult Op) : FdEventKind → Option Op
  | .read => result.read
  | .write => result.write

structure DrainAllResult (Op : Type u) where
  fds : List Nat := []
  ops : List Op := []
deriving DecidableEq, Repr

def entry (r : FdRegistry Op) (i : Nat) : FdOps Op := r.operations.getD i {}

/-- Store an entry, resizing the table when the index is beyond its end. -/
def put (r : FdRegistry Op) (i : Nat) (e : FdOps Op) : FdRegistry Op :=
  { r with operations := (Inventory.grow r.operations (i + 1) {}).set i e }

/-- `--active_count_` for an operation that leaves its slot. -/
def countOut (r : FdRegistry Op) (op : Option Op) : FdRegistry Op :=
  if op.isSome then
    { r with activeCount := FixedWidth.decr 64 r.activeCount }
  else r

/-- `register_impl`. -/
def registerImpl (r : FdRegistry Op) (fd : Int) (op : Option Op)
    (kind : FdEventKind) : FdRegistry Op × RegisterResult Op :=
  if fd < 0 then (r, {})
  else if r.operations.length ≤ fd.toNat ∧ op.isNone then (r, {})
  else
    let ops := (r.entry fd.toNat).markTracked
    let slot := ops.slotFor kind
    match op with
    | some op =>
        if slot.ready then
          (r.put fd.toNat (ops.setSlot slot.consume kind),
            { readyNow := some op })
        else
          let stored := r.put fd.toNat
            (ops.setSlot (slot.store op r.nextToken) kind)
          ({ stored with
              nextToken := FixedWidth.incr 64 r.nextToken
              activeCount :=
                if slot.op.isSome then r.activeCount
                else FixedWidth.incr 64 r.activeCount },
            { token := r.nextToken, replaced := slot.op })
    | none =>
        ((r.put fd.toNat (ops.setSlot slot.clear kind)).countOut slot.op,
          { replaced := slot.op })

def registerRead (r : FdRegistry Op) (fd : Int) (op : Option Op) :
    FdRegistry Op × RegisterResult Op :=
  r.registerImpl fd op .read

def registerWrite (r : FdRegistry Op) (fd : Int) (op : Option Op) :
    FdRegistry Op × RegisterResult Op :=
  r.registerImpl fd op .write

def cancel (r : FdRegistry Op) (fd : Int) (kind : FdEventKind) (token : Nat) :
    FdRegistry Op × CancelResult Op :=
  if fd < 0 ∨ r.operations.length ≤ fd.toNat then (r, {})
  else
    let ops := r.entry fd.toNat
    let slot := ops.slotFor kind
    if slot.op.isSome ∧ slot.token = token then
      ((r.put fd.toNat (ops.setSlot slot.clear kind)).countOut slot.op,
        { removed := slot.op, matched := true })
    else (r, {})

def deregister (r : FdRegistry Op) (fd : Int) :
    FdRegistry Op × PairResult Op :=
  if 0 ≤ fd ∧ fd.toNat < r.operations.length then
    let ops := r.entry fd.toNat
    (((r.put fd.toNat {}).countOut ops.read.op).countOut ops.write.op,
      { read := ops.read.op, write := ops.write.op })
  else (r, {})

def track (r : FdRegistry Op) (fd : Int) : FdRegistry Op :=
  if fd < 0 then r
  else r.put fd.toNat (r.entry fd.toNat).markTracked

def takeReady (r : FdRegistry Op) (fd : Int) (canRead canWrite : Bool) :
    FdRegistry Op × PairResult Op :=
  if fd < 0 ∨ r.operations.length ≤ fd.toNat then (r, {})
  else
    let ops := r.entry fd.toNat
    if !ops.tracked then (r, {})
    else
      let read := if canRead then ops.read.op else none
      let write := if canWrite then ops.write.op else none
      (((r.put fd.toNat { ops with
            read := if canRead then ops.read.signal else ops.read
            write := if canWrite then ops.write.signal else ops.write }
          ).countOut read).countOut write,
        { read, write })

/-- `empty`. -/
def isEmpty (r : FdRegistry Op) : Bool := r.activeCount == 0

/-- Whether `drain_all` reports a descriptor. -/
def FdOps.hadAny (e : FdOps Op) : Bool :=
  e.tracked || e.read.op.isSome || e.write.op.isSome || e.read.ready ||
    e.write.ready

def drainAll (r : FdRegistry Op) : FdRegistry Op × DrainAllResult Op :=
  if r.operations.isEmpty then (r, {})
  else
    ({ r with operations := [], activeCount := 0 },
      { fds := (List.range r.operations.length).filter
          (fun i => (r.entry i).hadAny)
        ops := r.operations.flatMap FdOps.ops })

/-! ### The table -/

theorem entry_put (r : FdRegistry Op) (i j : Nat) (e : FdOps Op) :
    (r.put i e).entry j = if j = i then e else r.entry j := by
  simp only [entry, put]
  rw [Inventory.getD_set (Inventory.lt_length_grow _ _ _),
    Inventory.getD_grow]

@[simp] theorem put_nextToken (r : FdRegistry Op) (i : Nat) (e : FdOps Op) :
    (r.put i e).nextToken = r.nextToken := rfl

@[simp] theorem countOut_operations (r : FdRegistry Op) (op : Option Op) :
    (r.countOut op).operations = r.operations := by
  unfold countOut
  split <;> rfl

@[simp] theorem countOut_nextToken (r : FdRegistry Op) (op : Option Op) :
    (r.countOut op).nextToken = r.nextToken := by
  unfold countOut
  split <;> rfl

@[simp] theorem countOut_entry (r : FdRegistry Op) (op : Option Op) (i : Nat) :
    (r.countOut op).entry i = r.entry i := by
  simp [entry]

/-- The slot of a descriptor and a direction. -/
def slotAt (r : FdRegistry Op) (i : Nat) (kind : FdEventKind) : Slot Op :=
  (r.entry i).slotFor kind

/-- An operation is stored in some slot. -/
def Stores (r : FdRegistry Op) (op : Op) : Prop :=
  ∃ i kind, (r.slotAt i kind).op = some op

/-- The second registry stores nothing that the first does not store at the
same place under the same token. -/
def OnlyRemoves (r t : FdRegistry Op) : Prop :=
  ∀ i kind op, (t.slotAt i kind).op = some op →
    (r.slotAt i kind).op = some op ∧
      (t.slotAt i kind).token = (r.slotAt i kind).token

theorem OnlyRemoves.refl (r : FdRegistry Op) : OnlyRemoves r r :=
  fun _ _ _ hop => ⟨hop, rfl⟩

theorem onlyRemoves_of_entry {r t : FdRegistry Op} {i : Nat} {e : FdOps Op}
    (hentry : ∀ j, t.entry j = if j = i then e else r.entry j)
    (hslots : ∀ kind op, (e.slotFor kind).op = some op →
      (r.slotAt i kind).op = some op ∧
        (e.slotFor kind).token = (r.slotAt i kind).token) :
    OnlyRemoves r t := by
  intro j kind op hop
  simp only [slotAt, hentry] at hop ⊢
  split at hop
  · next hj =>
      subst hj
      simp only [↓reduceIte]
      exact hslots kind op hop
  · next hj =>
      simp only [hj, ↓reduceIte, and_true]
      exact hop

theorem registerImpl_some (r : FdRegistry Op) {fd : Int} (hfd : 0 ≤ fd)
    (op : Op) (kind : FdEventKind) :
    r.registerImpl fd (some op) kind =
      if (r.slotAt fd.toNat kind).ready then
        (r.put fd.toNat ((r.entry fd.toNat).markTracked.setSlot
            (r.slotAt fd.toNat kind).consume kind),
          { readyNow := some op })
      else
        ({ r.put fd.toNat ((r.entry fd.toNat).markTracked.setSlot
              ((r.slotAt fd.toNat kind).store op r.nextToken) kind) with
            nextToken := FixedWidth.incr 64 r.nextToken
            activeCount :=
              if (r.slotAt fd.toNat kind).op.isSome then r.activeCount
              else FixedWidth.incr 64 r.activeCount },
          { token := r.nextToken, replaced := (r.slotAt fd.toNat kind).op }) := by
  have hneg : ¬ fd < 0 := by omega
  have hnone : ¬ (r.operations.length ≤ fd.toNat ∧ (some op).isNone = true) := by
    simp
  rw [registerImpl, if_neg hneg, if_neg hnone]
  simp only [FdOps.slotFor_markTracked, slotAt]
  rfl

/-- A slot that is emptied or keeps its operation and token. -/
theorem onlyRemoves_put_setSlot {r t : FdRegistry Op} (i : Nat) (e : FdOps Op)
    (slot : Slot Op) (kind : FdEventKind)
    (hentry : ∀ j, t.entry j =
      if j = i then e.setSlot slot kind else r.entry j)
    (he : ∀ other, e.slotFor other = r.slotAt i other)
    (hslot : ∀ op, slot.op = some op →
      (r.slotAt i kind).op = some op ∧ slot.token = (r.slotAt i kind).token) :
    OnlyRemoves r t := by
  refine onlyRemoves_of_entry hentry ?_
  intro other op hop
  rw [FdOps.slotFor_setSlot] at hop ⊢
  split at hop
  · next hother =>
      subst hother
      simp only [↓reduceIte]
      exact hslot op hop
  · next hother =>
      simp only [hother, ↓reduceIte]
      rw [he] at hop ⊢
      exact ⟨hop, rfl⟩

theorem cancel_onlyRemoves (r : FdRegistry Op) (fd : Int) (kind : FdEventKind)
    (token : Nat) :
    OnlyRemoves r (r.cancel fd kind token).1 ∧
      (r.cancel fd kind token).1.nextToken = r.nextToken := by
  unfold cancel
  split
  · exact ⟨OnlyRemoves.refl r, rfl⟩
  · simp only
    split
    · refine ⟨onlyRemoves_put_setSlot fd.toNat (r.entry fd.toNat)
        ((r.entry fd.toNat).slotFor kind).clear kind ?_ (fun _ => rfl) ?_,
        by simp⟩
      · intro j
        rw [countOut_entry, entry_put]
      · intro op hop
        simp [Slot.clear] at hop
    · exact ⟨OnlyRemoves.refl r, rfl⟩

/-- A registration that stores nothing only removes. -/
theorem registerImpl_none_onlyRemoves (r : FdRegistry Op) (fd : Int)
    (kind : FdEventKind) :
    OnlyRemoves r (r.registerImpl fd none kind).1 ∧
      (r.registerImpl fd none kind).1.nextToken = r.nextToken := by
  unfold registerImpl
  split
  · exact ⟨OnlyRemoves.refl r, rfl⟩
  · split
    · exact ⟨OnlyRemoves.refl r, rfl⟩
    · refine ⟨onlyRemoves_put_setSlot fd.toNat (r.entry fd.toNat).markTracked
        ((r.entry fd.toNat).markTracked.slotFor kind).clear kind ?_
        (fun _ => FdOps.slotFor_markTracked _ _) ?_, by simp⟩
      · intro j
        simp only [countOut_entry, entry_put]
      · intro op hop
        simp [Slot.clear] at hop

theorem registerImpl_ready_onlyRemoves (r : FdRegistry Op) {fd : Int}
    (hfd : 0 ≤ fd) (op : Op) {kind : FdEventKind}
    (hready : (r.slotAt fd.toNat kind).ready = true) :
    OnlyRemoves r (r.registerImpl fd (some op) kind).1 ∧
      (r.registerImpl fd (some op) kind).1.nextToken = r.nextToken := by
  rw [registerImpl_some r hfd, if_pos hready]
  refine ⟨onlyRemoves_put_setSlot fd.toNat (r.entry fd.toNat).markTracked
    (r.slotAt fd.toNat kind).consume kind (fun j => entry_put r _ j _)
    (fun _ => FdOps.slotFor_markTracked _ _) (fun op hop => ⟨hop, rfl⟩), rfl⟩

theorem deregister_onlyRemoves (r : FdRegistry Op) (fd : Int) :
    OnlyRemoves r (r.deregister fd).1 ∧
      (r.deregister fd).1.nextToken = r.nextToken := by
  unfold deregister
  split
  · refine ⟨onlyRemoves_of_entry (i := fd.toNat) (e := {}) ?_ ?_, by simp⟩
    · intro j
      simp only [countOut_entry, entry_put]
    · intro kind op hop
      cases kind <;> simp [FdOps.slotFor] at hop
  · exact ⟨OnlyRemoves.refl r, rfl⟩

theorem track_onlyRemoves (r : FdRegistry Op) (fd : Int) :
    OnlyRemoves r (r.track fd) ∧ (r.track fd).nextToken = r.nextToken := by
  unfold track
  split
  · exact ⟨OnlyRemoves.refl r, rfl⟩
  · refine ⟨onlyRemoves_of_entry (i := fd.toNat)
      (e := (r.entry fd.toNat).markTracked) (fun j => entry_put r _ j _) ?_, rfl⟩
    intro kind op hop
    rw [FdOps.slotFor_markTracked] at hop ⊢
    exact ⟨hop, rfl⟩

theorem takeReady_onlyRemoves (r : FdRegistry Op) (fd : Int)
    (canRead canWrite : Bool) :
    OnlyRemoves r (r.takeReady fd canRead canWrite).1 ∧
      (r.takeReady fd canRead canWrite).1.nextToken = r.nextToken := by
  unfold takeReady
  split
  · exact ⟨OnlyRemoves.refl r, rfl⟩
  · simp only
    split
    · exact ⟨OnlyRemoves.refl r, rfl⟩
    · refine ⟨onlyRemoves_of_entry (i := fd.toNat) (fun j => by
        rw [countOut_entry, countOut_entry, entry_put]) ?_, by simp⟩
      intro kind op hop
      cases kind with
      | read => cases canRead <;> simp_all [FdOps.slotFor, slotAt, Slot.signal_op]
      | write =>
          cases canWrite <;> simp_all [FdOps.slotFor, slotAt, Slot.signal_op]

theorem drainAll_onlyRemoves (r : FdRegistry Op) :
    OnlyRemoves r r.drainAll.1 ∧ r.drainAll.1.nextToken = r.nextToken := by
  unfold drainAll
  split
  · exact ⟨OnlyRemoves.refl r, rfl⟩
  · refine ⟨?_, rfl⟩
    intro i kind op hop
    cases kind <;> simp [slotAt, entry, FdOps.slotFor] at hop

theorem cancel_eq (r : FdRegistry Op) (fd : Int) (kind : FdEventKind)
    (token : Nat) :
    r.cancel fd kind token =
      if 0 ≤ fd ∧ (r.slotAt fd.toNat kind).op.isSome ∧
          (r.slotAt fd.toNat kind).token = token then
        ((r.put fd.toNat ((r.entry fd.toNat).setSlot
            (r.slotAt fd.toNat kind).clear kind)).countOut
            (r.slotAt fd.toNat kind).op,
          { removed := (r.slotAt fd.toNat kind).op, matched := true })
      else (r, {}) := by
  unfold cancel
  by_cases hfd : fd < 0 ∨ r.operations.length ≤ fd.toNat
  · rw [if_pos hfd, if_neg]
    rintro ⟨hpos, hop, _⟩
    rcases hfd with hneg | hlength
    · omega
    · cases kind <;>
        simp [slotAt, entry, List.getElem?_eq_none hlength,
          FdOps.slotFor] at hop
  · rw [if_neg hfd]
    rw [not_or, not_lt] at hfd
    simp only [slotAt, hfd.1, true_and]

theorem track_slotAt (r : FdRegistry Op) (fd : Int) (i : Nat)
    (kind : FdEventKind) : (r.track fd).slotAt i kind = r.slotAt i kind := by
  unfold track
  split
  · rfl
  · simp only [slotAt, entry_put]
    split
    · next hi => rw [hi, FdOps.slotFor_markTracked]
    · rfl

/-- A cancellation leaves latched readiness alone. -/
theorem cancel_ready (r : FdRegistry Op) (fd : Int) (kind : FdEventKind)
    (token i : Nat) (other : FdEventKind) :
    ((r.cancel fd kind token).1.slotAt i other).ready =
      (r.slotAt i other).ready := by
  rw [cancel_eq]
  split
  · simp only [slotAt, countOut_entry, entry_put]
    split
    · next hi =>
        subst hi
        rw [FdOps.slotFor_setSlot]
        split
        · next hkind =>
            subst hkind
            rfl
        · rfl
    · rfl
  · rfl

/-- After a registration the slot holds no latched readiness. -/
theorem registerImpl_ready (r : FdRegistry Op) {fd : Int} (hfd : 0 ≤ fd)
    (op : Op) (kind : FdEventKind) :
    ((r.registerImpl fd (some op) kind).1.slotAt fd.toNat kind).ready = false := by
  have hput : ∀ slot : Slot Op, (r.put fd.toNat
      ((r.entry fd.toNat).markTracked.setSlot slot kind)).slotAt fd.toNat kind =
        slot := by
    intro slot
    rw [slotAt, entry_put, if_pos rfl, FdOps.slotFor_setSlot, if_pos rfl]
  rw [registerImpl_some r hfd]
  cases hready : (r.slotAt fd.toNat kind).ready with
  | true =>
      rw [if_pos rfl, hput]
      rfl
  | false =>
      have hstored := hput ((r.slotAt fd.toNat kind).store op r.nextToken)
      simp only [Bool.false_eq_true, ↓reduceIte, slotAt, entry] at hstored ⊢
      rw [hstored]
      exact hready

theorem registerImpl_result (r : FdRegistry Op) {fd : Int} (hfd : 0 ≤ fd)
    (op : Op) (kind : FdEventKind) :
    (r.registerImpl fd (some op) kind).2 =
      if (r.slotAt fd.toNat kind).ready then { readyNow := some op }
      else { token := r.nextToken, replaced := (r.slotAt fd.toNat kind).op } := by
  rw [registerImpl_some r hfd]
  split <;> rfl

theorem registerImpl_readyNow (r : FdRegistry Op) {fd : Int} (hfd : 0 ≤ fd)
    (op : Op) (kind : FdEventKind) :
    (r.registerImpl fd (some op) kind).2.readyNow.isSome =
      (r.slotAt fd.toNat kind).ready := by
  rw [registerImpl_some r hfd]
  split
  · next hready => simp [hready]
  · next hready => simp [hready]

theorem drainAll_ready (r : FdRegistry Op) {i : Nat} {kind : FdEventKind}
    (hready : (r.slotAt i kind).ready = false) :
    (r.drainAll.1.slotAt i kind).ready = false := by
  unfold drainAll
  split
  · exact hready
  · cases kind <;> simp [slotAt, entry, FdOps.slotFor]

/-- What an event does to a slot of its descriptor: it takes the operation or
leaves it. -/
theorem takeReady_slotAt (r : FdRegistry Op) (fd : Int) (canRead canWrite : Bool)
    (kind : FdEventKind) :
    ((r.takeReady fd canRead canWrite).2.get kind =
        (r.slotAt fd.toNat kind).op ∧
      ((r.takeReady fd canRead canWrite).1.slotAt fd.toNat kind).op = none) ∨
    ((r.takeReady fd canRead canWrite).2.get kind = none ∧
      ((r.takeReady fd canRead canWrite).1.slotAt fd.toNat kind).op =
        (r.slotAt fd.toNat kind).op ∧
      ((r.takeReady fd canRead canWrite).1.slotAt fd.toNat kind).token =
        (r.slotAt fd.toNat kind).token) := by
  unfold takeReady
  split
  · right
    cases kind <;> exact ⟨rfl, rfl, rfl⟩
  · simp only
    split
    · right
      cases kind <;> exact ⟨rfl, rfl, rfl⟩
    · simp only [slotAt, countOut_entry, entry_put, ↓reduceIte]
      cases kind with
      | read =>
          cases canRead <;>
            simp [PairResult.get, FdOps.slotFor, Slot.signal_op]
      | write =>
          cases canWrite <;>
            simp [PairResult.get, FdOps.slotFor, Slot.signal_op]

/-- A slot whose operation was taken is empty. -/
theorem takeReady_taken (r : FdRegistry Op) (fd : Int) (canRead canWrite : Bool)
    (kind : FdEventKind)
    (htaken : ((r.takeReady fd canRead canWrite).2.get kind).isSome) :
    ((r.takeReady fd canRead canWrite).1.slotAt fd.toNat kind).op = none := by
  rcases r.takeReady_slotAt fd canRead canWrite kind with ⟨_, hnone⟩ | ⟨hnone, _⟩
  · exact hnone
  · simp [hnone] at htaken

theorem cancel_removed (r : FdRegistry Op) (fd : Int) (kind : FdEventKind)
    (token : Nat) (hremoved : (r.cancel fd kind token).2.removed.isSome) :
    ((r.cancel fd kind token).1.slotAt fd.toNat kind).op = none := by
  rw [cancel_eq] at hremoved ⊢
  split at hremoved
  · next hmatch =>
      rw [if_pos hmatch]
      simp only [slotAt, countOut_entry, entry_put, ↓reduceIte,
        FdOps.slotFor_setSlot]
      rfl
  · simp at hremoved

theorem cancel_removed_eq (r : FdRegistry Op) (fd : Int) (kind : FdEventKind)
    (token : Nat) {op : Op}
    (hremoved : (r.cancel fd kind token).2.removed = some op) :
    (r.slotAt fd.toNat kind).op = some op := by
  rw [cancel_eq] at hremoved
  split at hremoved
  · exact hremoved
  · simp at hremoved

/-- A cancellation that removes nothing changes nothing. -/
theorem cancel_unmatched (r : FdRegistry Op) (fd : Int) (kind : FdEventKind)
    (token : Nat) (hremoved : (r.cancel fd kind token).2.removed = none) :
    (r.cancel fd kind token).1 = r := by
  rw [cancel_eq] at hremoved ⊢
  split at hremoved
  · next hmatch =>
      simp only at hremoved
      rw [hremoved] at hmatch
      simp at hmatch
  · next hmatch => rw [if_neg hmatch]

theorem cancel_slotAt_other (r : FdRegistry Op) (fd : Int)
    {kind other : FdEventKind} (token : Nat) (hother : other ≠ kind) (i : Nat) :
    (r.cancel fd kind token).1.slotAt i other = r.slotAt i other := by
  rw [cancel_eq]
  split
  · simp only [slotAt, countOut_entry, entry_put]
    split
    · next hi => rw [FdOps.slotFor_setSlot, if_neg hother, hi]
    · rfl
  · rfl

/-- A stored operation is removed by its own token. -/
theorem cancel_of_token (r : FdRegistry Op) {fd : Int} (hfd : 0 ≤ fd)
    {kind : FdEventKind} (hop : (r.slotAt fd.toNat kind).op.isSome) :
    (r.cancel fd kind (r.slotAt fd.toNat kind).token).2.removed =
      (r.slotAt fd.toNat kind).op := by
  rw [cancel_eq, if_pos ⟨hfd, hop, rfl⟩]

theorem registerImpl_slotAt_other (r : FdRegistry Op) {fd : Int} (hfd : 0 ≤ fd)
    (op : Op) {kind other : FdEventKind} (hother : other ≠ kind) (i : Nat) :
    (r.registerImpl fd (some op) kind).1.slotAt i other = r.slotAt i other := by
  have hput : ∀ slot : Slot Op, (r.put fd.toNat
      ((r.entry fd.toNat).markTracked.setSlot slot kind)).slotAt i other =
        r.slotAt i other := by
    intro slot
    simp only [slotAt, entry_put]
    split
    · next hi =>
        rw [FdOps.slotFor_setSlot, if_neg hother, FdOps.slotFor_markTracked, hi]
    · rfl
  rw [registerImpl_some r hfd]
  split
  · exact hput _
  · exact hput _

theorem registerImpl_slotAt_ne (r : FdRegistry Op) {fd : Int} (hfd : 0 ≤ fd)
    (op : Op) (kind other : FdEventKind) {i : Nat} (hi : i ≠ fd.toNat) :
    (r.registerImpl fd (some op) kind).1.slotAt i other = r.slotAt i other := by
  have hput : ∀ e : FdOps Op,
      (r.put fd.toNat e).slotAt i other = r.slotAt i other := by
    intro e
    rw [slotAt, entry_put, if_neg hi]
    rfl
  rw [registerImpl_some r hfd]
  split
  · exact hput _
  · exact hput _

/-- Readiness is latched in empty slots only. -/
def LatchOk (r : FdRegistry Op) : Prop :=
  ∀ i kind, (r.slotAt i kind).ready = true → (r.slotAt i kind).op = none

theorem latchOk_empty : LatchOk ({} : FdRegistry Op) := by
  intro i kind hready
  cases kind <;> simp [slotAt, entry, FdOps.slotFor] at hready

theorem latchOk_of_entry {r t : FdRegistry Op} (hr : LatchOk r) {i : Nat}
    {e : FdOps Op} (hentry : ∀ j, t.entry j = if j = i then e else r.entry j)
    (he : ∀ kind, (e.slotFor kind).ready = true → (e.slotFor kind).op = none) :
    LatchOk t := by
  intro j kind hready
  simp only [slotAt, hentry] at hready ⊢
  split at hready
  · next hj =>
      rw [if_pos hj]
      exact he kind hready
  · next hj =>
      rw [if_neg hj]
      exact hr j kind hready

theorem cancel_latchOk {r : FdRegistry Op} (hr : LatchOk r) (fd : Int)
    (kind : FdEventKind) (token : Nat) : LatchOk (r.cancel fd kind token).1 := by
  intro i other hready
  rw [cancel_ready] at hready
  by_contra hsome
  obtain ⟨op, hop⟩ := Option.ne_none_iff_exists'.mp hsome
  have hold := ((r.cancel_onlyRemoves fd kind token).1 i other op hop).1
  rw [hr i other hready] at hold
  simp at hold

theorem registerImpl_latchOk {r : FdRegistry Op} (hr : LatchOk r) {fd : Int}
    (hfd : 0 ≤ fd) (op : Op) (kind : FdEventKind) :
    LatchOk (r.registerImpl fd (some op) kind).1 := by
  have hput : ∀ slot : Slot Op, (slot.ready = true → slot.op = none) →
      ∀ other, (((r.entry fd.toNat).markTracked.setSlot slot kind).slotFor
        other).ready = true →
      (((r.entry fd.toNat).markTracked.setSlot slot kind).slotFor other).op =
        none := by
    intro slot hslot other
    rw [FdOps.slotFor_setSlot]
    split
    · exact hslot
    · rw [FdOps.slotFor_markTracked]
      exact hr fd.toNat other
  rw [registerImpl_some r hfd]
  split
  · refine latchOk_of_entry hr (fun j => entry_put r fd.toNat j _) (hput _ ?_)
    simp [Slot.consume]
  · next hready =>
      refine latchOk_of_entry hr (fun j => entry_put r fd.toNat j _) (hput _ ?_)
      intro hstored
      exact absurd hstored hready

theorem Slot.signal_latchOk (slot : Slot Op) :
    slot.signal.ready = true → slot.signal.op = none :=
  fun _ => slot.signal_op

theorem takeReady_latchOk {r : FdRegistry Op} (hr : LatchOk r) (fd : Int)
    (canRead canWrite : Bool) :
    LatchOk (r.takeReady fd canRead canWrite).1 := by
  unfold takeReady
  split
  · exact hr
  · simp only
    split
    · exact hr
    · refine latchOk_of_entry hr (i := fd.toNat) (fun j => by
        rw [countOut_entry, countOut_entry, entry_put]) ?_
      intro kind
      cases kind with
      | read =>
          cases canRead with
          | true => exact Slot.signal_latchOk _
          | false => exact hr fd.toNat .read
      | write =>
          cases canWrite with
          | true => exact Slot.signal_latchOk _
          | false => exact hr fd.toNat .write

/-- A registration that does not complete at once stores its operation under
the token it returns. -/
theorem registerImpl_slotAt (r : FdRegistry Op) {fd : Int} (hfd : 0 ≤ fd)
    (op : Op) (kind : FdEventKind)
    (hready : (r.slotAt fd.toNat kind).ready = false) :
    (r.registerImpl fd (some op) kind).2.token = r.nextToken ∧
      (r.registerImpl fd (some op) kind).1.slotAt fd.toNat kind =
        (r.slotAt fd.toNat kind).store op r.nextToken := by
  rw [registerImpl_some r hfd]
  have hput : (r.put fd.toNat ((r.entry fd.toNat).markTracked.setSlot
      ((r.slotAt fd.toNat kind).store op r.nextToken) kind)).slotAt
        fd.toNat kind = (r.slotAt fd.toNat kind).store op r.nextToken := by
    rw [slotAt, entry_put, if_pos rfl, FdOps.slotFor_setSlot, if_pos rfl]
  simp only [hready, Bool.false_eq_true, ↓reduceIte, true_and]
  simp only [slotAt, entry] at hput ⊢
  exact hput

theorem registerImpl_nextToken (r : FdRegistry Op) {fd : Int} (hfd : 0 ≤ fd)
    (op : Op) (kind : FdEventKind)
    (hready : (r.slotAt fd.toNat kind).ready = false) :
    (r.registerImpl fd (some op) kind).1.nextToken =
      FixedWidth.incr 64 r.nextToken := by
  rw [registerImpl_some r hfd, if_neg (by simp [hready])]

/-- A registration keeps or replaces the other operations. -/
theorem registerImpl_removes (r : FdRegistry Op) {fd : Int} (hfd : 0 ≤ fd)
    {op me : Op} (hme : me ≠ op) (kind : FdEventKind) {i : Nat}
    {other : FdEventKind}
    (hstored : ((r.registerImpl fd (some op) kind).1.slotAt i other).op =
      some me) :
    (r.slotAt i other).op = some me ∧
      ((r.registerImpl fd (some op) kind).1.slotAt i other).token =
        (r.slotAt i other).token := by
  cases hready : (r.slotAt fd.toNat kind).ready with
  | true =>
      exact (r.registerImpl_ready_onlyRemoves hfd op hready).1 i other me hstored
  | false =>
      by_cases hother : other = kind
      · subst hother
        by_cases hi : i = fd.toNat
        · rw [hi, (r.registerImpl_slotAt hfd op other hready).2] at hstored
          exact absurd (Option.some.inj hstored).symm hme
        · rw [r.registerImpl_slotAt_ne hfd op other other hi] at hstored ⊢
          exact ⟨hstored, rfl⟩
      · rw [r.registerImpl_slotAt_other hfd op hother] at hstored ⊢
        exact ⟨hstored, rfl⟩

/-- Where a new operation is stored, and under which token. -/
theorem registerImpl_stored (r : FdRegistry Op) {fd : Int} (hfd : 0 ≤ fd)
    {op : Op} (hnew : ¬ r.Stores op) (kind : FdEventKind) {i : Nat}
    {other : FdEventKind}
    (hstored : ((r.registerImpl fd (some op) kind).1.slotAt i other).op =
      some op) :
    i = fd.toNat ∧ other = kind ∧
      (r.slotAt fd.toNat kind).ready = false ∧
      (r.registerImpl fd (some op) kind).2.token = r.nextToken ∧
      ((r.registerImpl fd (some op) kind).1.slotAt i other).token =
        r.nextToken := by
  cases hready : (r.slotAt fd.toNat kind).ready with
  | true =>
      have hold := (r.registerImpl_ready_onlyRemoves hfd op hready).1
        i other op hstored
      exact absurd ⟨i, other, hold.1⟩ hnew
  | false =>
      by_cases hother : other = kind
      · subst hother
        by_cases hi : i = fd.toNat
        · subst hi
          obtain ⟨htoken, hslot⟩ := r.registerImpl_slotAt hfd op other hready
          rw [hslot]
          exact ⟨rfl, rfl, rfl, htoken, rfl⟩
        · rw [r.registerImpl_slotAt_ne hfd op other other hi] at hstored
          exact absurd ⟨i, other, hstored⟩ hnew
      · rw [r.registerImpl_slotAt_other hfd op hother] at hstored
        exact absurd ⟨i, other, hstored⟩ hnew

/-! ### Other descriptors -/

theorem toNat_ne_of_ne {fd : Int} {i : Nat} (hne : fd ≠ i) (hfd : 0 ≤ fd) :
    i ≠ fd.toNat := by omega

theorem registerImpl_entry_ne (r : FdRegistry Op) {fd : Int} {i : Nat}
    (hne : fd ≠ i) (op : Option Op) (kind : FdEventKind) :
    (r.registerImpl fd op kind).1.entry i = r.entry i := by
  unfold registerImpl
  split
  · rfl
  · next hfd =>
      have hi := toNat_ne_of_ne hne (by omega)
      have hput : ∀ e, (r.put fd.toNat e).entry i = r.entry i := by
        intro e
        rw [entry_put, if_neg hi]
      split
      · rfl
      · cases op with
        | none => simpa using hput _
        | some op =>
            simp only
            split
            · exact hput _
            · exact hput _

theorem cancel_entry_ne (r : FdRegistry Op) {fd : Int} {i : Nat} (hne : fd ≠ i)
    (kind : FdEventKind) (token : Nat) :
    (r.cancel fd kind token).1.entry i = r.entry i := by
  rw [cancel_eq]
  split
  · next hfd =>
      rw [countOut_entry, entry_put, if_neg (toNat_ne_of_ne hne hfd.1)]
  · rfl

theorem deregister_entry_ne (r : FdRegistry Op) {fd : Int} {i : Nat}
    (hne : fd ≠ i) : (r.deregister fd).1.entry i = r.entry i := by
  unfold deregister
  split
  · next hfd =>
      simp only [countOut_entry, entry_put]
      rw [if_neg (toNat_ne_of_ne hne hfd.1)]
  · rfl

theorem track_entry_ne (r : FdRegistry Op) {fd : Int} {i : Nat}
    (hne : fd ≠ i) : (r.track fd).entry i = r.entry i := by
  unfold track
  split
  · rfl
  · next hfd => rw [entry_put, if_neg (toNat_ne_of_ne hne (by omega))]

theorem takeReady_entry_ne (r : FdRegistry Op) {fd : Int} {i : Nat}
    (hne : fd ≠ i) (canRead canWrite : Bool) :
    (r.takeReady fd canRead canWrite).1.entry i = r.entry i := by
  unfold takeReady
  split
  · rfl
  · next hfd =>
      rw [not_or, not_lt] at hfd
      simp only
      split
      · rfl
      · simp only [countOut_entry, entry_put]
        rw [if_neg (toNat_ne_of_ne hne hfd.1)]

theorem track_tracked (r : FdRegistry Op) (i : Nat) :
    ((r.track i).entry i).tracked = true := by
  rw [track, if_neg (by omega), Int.toNat_natCast, entry_put, if_pos rfl]
  rfl

theorem registerImpl_tracked (r : FdRegistry Op) (i : Nat) (op : Op)
    (kind : FdEventKind) :
    ((r.registerImpl i (some op) kind).1.entry i).tracked = true := by
  have hput : ∀ slot : Slot Op, ((r.put i
      ((r.entry i).markTracked.setSlot slot kind)).entry i).tracked = true := by
    intro slot
    rw [entry_put, if_pos rfl, FdOps.setSlot_tracked]
    rfl
  rw [registerImpl_some r (Int.natCast_nonneg i)]
  split
  · exact hput _
  · exact hput _

theorem cancel_tracked (r : FdRegistry Op) (fd : Int) (kind : FdEventKind)
    (token i : Nat) :
    ((r.cancel fd kind token).1.entry i).tracked = (r.entry i).tracked := by
  rw [cancel_eq]
  split
  · simp only [countOut_entry, entry_put]
    split
    · next hi => rw [FdOps.setSlot_tracked, hi]
    · rfl
  · rfl

/-- A tracked entry lies in the table. -/
theorem lt_length_of_tracked {r : FdRegistry Op} {i : Nat}
    (htracked : (r.entry i).tracked = true) : i < r.operations.length := by
  by_contra hlength
  rw [not_lt] at hlength
  simp [entry, List.getElem?_eq_none hlength] at htracked

theorem mem_drainAll_fds {r : FdRegistry Op} {i : Nat}
    (htracked : (r.entry i).tracked = true) : i ∈ r.drainAll.2.fds := by
  have hlength := lt_length_of_tracked htracked
  have hempty : ¬ r.operations.isEmpty = true := by
    rw [List.isEmpty_iff_length_eq_zero]
    omega
  rw [drainAll, if_neg hempty]
  simp [hlength, FdOps.hadAny, htracked]

/-- An event for a tracked descriptor hands each signalled direction to its
waiting operation or latches it. -/
theorem takeReady_of_tracked {r : FdRegistry Op} {i : Nat}
    (htracked : (r.entry i).tracked = true) (canRead canWrite : Bool)
    (kind : FdEventKind) :
    (r.takeReady i canRead canWrite).1.slotAt i kind =
        (if kind.pick canRead canWrite then (r.slotAt i kind).signal
          else r.slotAt i kind) ∧
      (r.takeReady i canRead canWrite).2.get kind =
        (if kind.pick canRead canWrite then (r.slotAt i kind).op else none) ∧
      ((r.takeReady i canRead canWrite).1.entry i).tracked = true := by
  have hlength := lt_length_of_tracked htracked
  have hfd : ¬ ((i : Int) < 0 ∨ r.operations.length ≤ (i : Int).toNat) := by
    omega
  rw [takeReady, if_neg hfd]
  simp only [Int.toNat_natCast, htracked, Bool.not_true, Bool.false_eq_true,
    ↓reduceIte, slotAt, countOut_entry, entry_put]
  cases kind <;> exact ⟨rfl, rfl, trivial⟩

/-! ### Where operations go -/

section Held

variable [DecidableEq Op]

/-- In how many slots an operation is stored. -/
def held (r : FdRegistry Op) (op : Op) : Nat :=
  Inventory.held FdOps.ops r.operations op

theorem held_put (r : FdRegistry Op) (i : Nat) (e : FdOps Op) (op : Op) :
    (r.put i e).held op + (r.entry i).ops.count op =
      r.held op + e.ops.count op := by
  have hset := Inventory.held_set FdOps.ops
    (Inventory.lt_length_grow r.operations i {}) e {} op
  rw [Inventory.getD_grow, Inventory.held_grow_of_nil FdOps.ops rfl] at hset
  exact hset

@[simp] theorem countOut_held (r : FdRegistry Op) (out : Option Op) (op : Op) :
    (r.countOut out).held op = r.held op := by
  simp [held]

/-- Replacing one slot of an entry exchanges the operations. -/
theorem held_put_setSlot (r : FdRegistry Op) (i : Nat) {e : FdOps Op}
    (he : e.ops = (r.entry i).ops) (slot : Slot Op) (kind : FdEventKind)
    (op : Op) :
    (r.put i (e.setSlot slot kind)).held op +
        (e.slotFor kind).op.toList.count op =
      r.held op + slot.op.toList.count op := by
  have hput := r.held_put i (e.setSlot slot kind) op
  have hslot := e.count_ops_setSlot slot kind op
  rw [he] at hslot
  omega

/-- A registration stores the operation, or completes it at once; the operation
it replaces leaves. -/
theorem registerImpl_held (r : FdRegistry Op) {fd : Int} (hfd : 0 ≤ fd)
    (new : Op) (kind : FdEventKind) (op : Op) :
    (r.registerImpl fd (some new) kind).1.held op +
        (r.registerImpl fd (some new) kind).2.replaced.toList.count op +
        (r.registerImpl fd (some new) kind).2.readyNow.toList.count op =
      r.held op + [new].count op := by
  rw [registerImpl_some r hfd]
  split
  · have hput := r.held_put_setSlot fd.toNat (FdOps.ops_markTracked _)
      (r.slotAt fd.toNat kind).consume kind op
    simp only [FdOps.slotFor_markTracked, Slot.consume, slotAt] at hput
    simp only [Option.toList_none, List.count_nil, Option.toList_some,
      Slot.consume, slotAt]
    omega
  · have hput := r.held_put_setSlot fd.toNat (FdOps.ops_markTracked _)
      ((r.slotAt fd.toNat kind).store new r.nextToken) kind op
    simp only [FdOps.slotFor_markTracked, Slot.store, slotAt, held,
      Option.toList_some] at hput
    simp only [Option.toList_none, List.count_nil, Slot.store, slotAt, held]
    omega

theorem cancel_held (r : FdRegistry Op) (fd : Int) (kind : FdEventKind)
    (token : Nat) (op : Op) :
    (r.cancel fd kind token).1.held op +
        (r.cancel fd kind token).2.removed.toList.count op = r.held op := by
  unfold cancel
  split
  · simp
  · simp only
    split
    · have hput := r.held_put_setSlot fd.toNat rfl
        ((r.entry fd.toNat).slotFor kind).clear kind op
      simp only [Slot.clear, Option.toList_none, List.count_nil] at hput
      simp only [countOut_held, Slot.clear]
      omega
    · simp

theorem deregister_held (r : FdRegistry Op) (fd : Int) (op : Op) :
    (r.deregister fd).1.held op + (r.deregister fd).2.read.toList.count op +
        (r.deregister fd).2.write.toList.count op = r.held op := by
  unfold deregister
  split
  · have hput := r.held_put fd.toNat {} op
    simp only [FdOps.ops, List.count_append, Option.toList_none,
      List.count_nil] at hput
    simp only [countOut_held]
    omega
  · simp

theorem track_held (r : FdRegistry Op) (fd : Int) (op : Op) :
    (r.track fd).held op = r.held op := by
  unfold track
  split
  · rfl
  · have hput := r.held_put fd.toNat (r.entry fd.toNat).markTracked op
    rw [FdOps.ops_markTracked] at hput
    omega

theorem takeReady_held (r : FdRegistry Op) (fd : Int) (canRead canWrite : Bool)
    (op : Op) :
    (r.takeReady fd canRead canWrite).1.held op +
        (r.takeReady fd canRead canWrite).2.read.toList.count op +
        (r.takeReady fd canRead canWrite).2.write.toList.count op =
      r.held op := by
  unfold takeReady
  split
  · simp
  · simp only
    split
    · simp
    · have hput := r.held_put fd.toNat { r.entry fd.toNat with
        read := if canRead then (r.entry fd.toNat).read.signal
          else (r.entry fd.toNat).read
        write := if canWrite then (r.entry fd.toNat).write.signal
          else (r.entry fd.toNat).write } op
      simp only [countOut_held]
      cases canRead <;> cases canWrite <;>
        simp_all [FdOps.ops, List.count_append, Slot.signal_op] <;> omega

theorem drainAll_held (r : FdRegistry Op) (op : Op) :
    r.drainAll.1.held op + r.drainAll.2.ops.count op = r.held op := by
  unfold drainAll
  split
  · next hempty =>
      simp only [List.isEmpty_iff] at hempty
      simp [held, hempty]
  · simp [held, Inventory.held]

end Held

end FdRegistry

end Iocoro
