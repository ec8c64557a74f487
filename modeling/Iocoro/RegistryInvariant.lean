/-
The fields of `fd_registry` that say one thing in several places: operation, token,
latch and tracked flag of a slot, and the count of all operations.  A slot is well
formed by itself; every function but `drain_all` rewrites one entry of the table, so
one lemma about that carries the invariant through a run.
-/
import Mathlib.Data.List.Induction
import Iocoro.FdRegistry

universe u v

namespace Inventory

/-- Replacing an entry changes how much the entries hold by what the old and the new
one do. -/
theorem length_flatMap_set {α : Type u} {β : Type v} (f : α → List β) {table : List α}
    {i : Nat} (hi : i < table.length) (a d : α) :
    ((table.set i a).flatMap f).length + (f (table.getD i d)).length =
      (table.flatMap f).length + (f a).length := by
  induction table generalizing i with
  | nil => simp at hi
  | cons head tail ih =>
      cases i with
      | zero =>
          simp only [List.set_cons_zero, List.flatMap_cons, List.length_append,
            List.getD_cons_zero]
          omega
      | succ i =>
          have htail := ih (i := i) (by simpa using hi)
          simp only [List.set_cons_succ, List.flatMap_cons, List.length_append,
            List.getD_cons_succ]
          omega

end Inventory

namespace Iocoro

namespace FdRegistry

variable {Op : Type u}

inductive Call (Op : Type u) : Type u
  | register (fd : Int) (op : Option Op) (kind : FdEventKind)
  | cancel (fd : Int) (kind : FdEventKind) (token : Nat)
  | deregister (fd : Int)
  | track (fd : Int)
  | takeReady (fd : Int) (canRead canWrite : Bool)
  | drainAll
  deriving DecidableEq, Repr

namespace Call

def apply (r : FdRegistry Op) : Call Op → FdRegistry Op
  | register fd op kind => (r.registerImpl fd op kind).1
  | cancel fd kind token => (r.cancel fd kind token).1
  | deregister fd => (r.deregister fd).1
  | track fd => r.track fd
  | takeReady fd canRead canWrite => (r.takeReady fd canRead canWrite).1
  | drainAll => r.drainAll.1

/-- The call registers an operation. -/
def registers : Call Op → Bool
  | register _ op _ => op.isSome
  | _ => false

/-- The descriptor a call is for. -/
def fd? : Call Op → Option Int
  | register fd _ _ => some fd
  | cancel fd _ _ => some fd
  | deregister fd => some fd
  | track fd => some fd
  | takeReady fd _ _ => some fd
  | drainAll => none

/-- The call is for this slot. -/
def Concerns : Call Op → Nat → FdEventKind → Prop
  | register fd _ kind, i, other => fd = i ∧ kind = other
  | cancel fd kind _, i, other => fd = i ∧ kind = other
  | deregister fd, i, _ => fd = i
  | track _, _, _ => False
  | takeReady fd canRead canWrite, i, other =>
      fd = i ∧ other.pick canRead canWrite = true
  | drainAll, _, _ => True

/-- How often the call executes `--active_count_`. -/
def decrements (r : FdRegistry Op) : Call Op → Nat
  | register fd none kind => (r.registerImpl fd none kind).2.replaced.toList.length
  | register _ (some _) _ => 0
  | cancel fd kind token => (r.cancel fd kind token).2.removed.toList.length
  | deregister fd =>
      (r.deregister fd).2.read.toList.length + (r.deregister fd).2.write.toList.length
  | track _ => 0
  | takeReady fd canRead canWrite =>
      (r.takeReady fd canRead canWrite).2.read.toList.length +
        (r.takeReady fd canRead canWrite).2.write.toList.length
  | drainAll => 0

end Call

/-- A sequence of calls, from an empty registry. -/
def run (calls : List (Call Op)) : FdRegistry Op := calls.foldl Call.apply {}

def registrations (calls : List (Call Op)) : Nat := calls.countP Call.registers

/-- The operations of all slots. -/
def stored (r : FdRegistry Op) : List Op := r.operations.flatMap FdOps.ops

/-! ### One slot -/

/-- A slot of an entry, after `issued` tokens have been given out. -/
structure SlotOk (slot : Slot Op) (tracked : Bool) (issued : Nat) : Prop where
  token_iff : slot.op.isSome = true ↔ slot.token ≠ invalidToken
  latched : slot.ready = true → slot.op = none
  tracked : slot.op.isSome = true ∨ slot.ready = true → tracked = true
  issued : slot.token ≤ issued

namespace SlotOk

variable {slot : Slot Op} {tracked : Bool} {issued : Nat}

theorem default (tracked : Bool) (issued : Nat) :
    SlotOk ({} : Slot Op) tracked issued where
  token_iff := by simp
  latched := fun _ => rfl
  tracked := by simp
  issued := Nat.zero_le _

theorem markTracked (hslot : SlotOk slot tracked issued) : SlotOk slot true issued :=
  { hslot with tracked := fun _ => rfl }

theorem mono (hslot : SlotOk slot tracked issued) {issued' : Nat}
    (hle : issued ≤ issued') : SlotOk slot tracked issued' :=
  { hslot with issued := Nat.le_trans hslot.issued hle }

theorem clear (hslot : SlotOk slot tracked issued) :
    SlotOk slot.clear tracked issued where
  token_iff := by simp [Slot.clear]
  latched := fun _ => rfl
  tracked := fun hany => hslot.tracked (.inr (by simpa [Slot.clear] using hany))
  issued := Nat.zero_le _

theorem consume (hslot : SlotOk slot tracked issued) :
    SlotOk slot.consume tracked issued where
  token_iff := hslot.token_iff
  latched := nofun
  tracked := fun hany => hslot.tracked (.inl (by simpa [Slot.consume] using hany))
  issued := hslot.issued

theorem signal (hslot : SlotOk slot true issued) : SlotOk slot.signal true issued := by
  rw [Slot.signal]
  split
  · exact hslot.clear
  next hnone =>
    exact { hslot with
      latched := fun _ => by simpa using hnone
      tracked := fun _ => rfl }

theorem store (hready : slot.ready = false) (op : Op) {token : Nat}
    (htoken : token ≠ invalidToken) : SlotOk (slot.store op token) true token where
  token_iff := by simpa [Slot.store] using htoken
  latched := fun hlatched => absurd (hready.symm.trans hlatched) nofun
  tracked := fun _ => rfl
  issued := Nat.le_refl _

end SlotOk

/-- The slot is as before, or its operation has left it. -/
def Slot.Fades (old new : Slot Op) : Prop :=
  (new.op = old.op ∧ new.token = old.token) ∨
    (new.op = none ∧ new.token = invalidToken)

theorem Slot.fades_refl (slot : Slot Op) : slot.Fades slot := .inl ⟨rfl, rfl⟩

theorem Slot.fades_clear (slot : Slot Op) : slot.Fades slot.clear := .inr ⟨rfl, rfl⟩

theorem Slot.fades_consume (slot : Slot Op) : slot.Fades slot.consume :=
  .inl ⟨rfl, rfl⟩

theorem Slot.fades_signal (slot : Slot Op) : slot.Fades slot.signal := by
  rw [Slot.signal]
  split
  · exact slot.fades_clear
  · exact .inl ⟨rfl, rfl⟩

/-! ### One entry -/

def EntryOk (e : FdOps Op) (issued : Nat) : Prop :=
  ∀ kind, SlotOk (e.slotFor kind) e.tracked issued

theorem EntryOk.default (issued : Nat) : EntryOk ({} : FdOps Op) issued := by
  intro kind
  cases kind <;> exact SlotOk.default _ _

theorem EntryOk.markTracked {e : FdOps Op} {issued : Nat} (he : EntryOk e issued) :
    EntryOk e.markTracked issued := by
  intro kind
  rw [FdOps.slotFor_markTracked]
  exact (he kind).markTracked

theorem EntryOk.setSlot {e : FdOps Op} {issued : Nat} (he : EntryOk e issued)
    {slot : Slot Op} (hslot : SlotOk slot e.tracked issued) (kind : FdEventKind) :
    EntryOk (e.setSlot slot kind) issued := by
  intro other
  rw [FdOps.slotFor_setSlot, FdOps.setSlot_tracked]
  split
  · exact hslot
  · exact he other

/-- Every operation of the new entry was in the old one under its token. -/
def FdOps.Fades (old new : FdOps Op) : Prop :=
  ∀ kind, (old.slotFor kind).Fades (new.slotFor kind)

theorem FdOps.fades_setSlot {e new : FdOps Op} {slot : Slot Op}
    (hsame : ∀ kind, new.slotFor kind = e.slotFor kind) {kind : FdEventKind}
    (hslot : (e.slotFor kind).Fades slot) : e.Fades (new.setSlot slot kind) := by
  intro other
  rw [FdOps.slotFor_setSlot, hsame]
  split
  next hother => exact hother ▸ hslot
  next => exact (e.slotFor other).fades_refl

theorem FdOps.length_ops (e : FdOps Op) :
    e.ops.length = (e.slotFor .read).op.toList.length +
      (e.slotFor .write).op.toList.length :=
  List.length_append

theorem FdOps.length_ops_setSlot (e : FdOps Op) (slot : Slot Op) (kind : FdEventKind) :
    (e.setSlot slot kind).ops.length + (e.slotFor kind).op.toList.length =
      e.ops.length + slot.op.toList.length := by
  cases kind <;>
    simp only [FdOps.ops, FdOps.setSlot, FdOps.slotFor, List.length_append] <;>
    omega

/-! ### The whole table -/

theorem stored_put (r : FdRegistry Op) (i : Nat) (e : FdOps Op) :
    (r.put i e).stored.length + (r.entry i).ops.length =
      r.stored.length + e.ops.length := by
  have hset := Inventory.length_flatMap_set FdOps.ops
    (Inventory.lt_length_grow r.operations i {}) e {}
  have hgrow : (Inventory.grow r.operations (i + 1) {}).flatMap FdOps.ops =
      r.operations.flatMap FdOps.ops := by
    rw [Inventory.grow, List.flatMap_append, List.flatMap_replicate]
    simp [FdOps.ops]
  rw [Inventory.getD_grow, hgrow] at hset
  exact hset

@[simp] theorem stored_countOut (r : FdRegistry Op) (op : Option Op) :
    (r.countOut op).stored = r.stored := by
  rw [stored, countOut_operations, stored]

theorem length_ops_le_stored (r : FdRegistry Op) (i : Nat) :
    (r.entry i).ops.length ≤ r.stored.length := by
  have hput := r.stored_put i {}
  have hempty : ({} : FdOps Op).ops.length = 0 := rfl
  omega

theorem countOut_activeCount (r : FdRegistry Op) (op : Option Op)
    (hle : op.toList.length ≤ r.activeCount) (hlt : r.activeCount < 2 ^ 64) :
    (r.countOut op).activeCount = r.activeCount - op.toList.length := by
  cases op with
  | none => rfl
  | some op => exact FixedWidth.decr_of_pos hle hlt

/-- The representation invariant, after `issued` tokens have been given out. -/
structure Represents (r : FdRegistry Op) (issued : Nat) : Prop where
  next : r.nextToken = FixedWidth.truncate 64 (issued + 1)
  entries : ∀ i, EntryOk (r.entry i) issued
  distinct : ∀ i kind j other, (r.slotAt i kind).op.isSome = true →
    (r.slotAt j other).token = (r.slotAt i kind).token → j = i ∧ other = kind
  count : r.activeCount = r.stored.length
  few : r.stored.length ≤ issued

namespace Represents

theorem empty : Represents ({} : FdRegistry Op) 0 where
  next := rfl
  entries := fun _ => EntryOk.default 0
  distinct := by
    intro i kind j other hop
    cases kind <;> simp [slotAt, entry, FdOps.slotFor] at hop
  count := rfl
  few := Nat.le_refl _

variable {r : FdRegistry Op} {issued : Nat}

/-- An entry some of whose operations leave; each is counted out. -/
theorem leave (hr : Represents r issued) (hissued : issued < 2 ^ 64) {i : Nat}
    {e : FdOps Op} (first second : Option Op) (hfades : (r.entry i).Fades e)
    (he : EntryOk e issued)
    (hops : e.ops.length + first.toList.length + second.toList.length =
      (r.entry i).ops.length) :
    Represents (((r.put i e).countOut first).countOut second) issued := by
  have hstored := r.stored_put i e
  have hle := r.length_ops_le_stored i
  have hfew := hr.few
  have hactive : (r.put i e).activeCount = r.stored.length := hr.count
  have hfirst := countOut_activeCount (r.put i e) first (by omega) (by omega)
  have hsecond := countOut_activeCount ((r.put i e).countOut first) second
    (by omega) (by omega)
  have hentry : ∀ j, (((r.put i e).countOut first).countOut second).entry j =
      if j = i then e else r.entry j := by
    intro j
    rw [countOut_entry, countOut_entry, entry_put]
  -- a token that is still there was there before, in the same slot
  have hold : ∀ j kind,
      ((((r.put i e).countOut first).countOut second).slotAt j kind).token ≠
        invalidToken →
      ((((r.put i e).countOut first).countOut second).slotAt j kind).token =
        (r.slotAt j kind).token := by
    intro j kind htoken
    simp only [slotAt, hentry] at htoken ⊢
    split
    next hj =>
      rw [if_pos hj] at htoken
      subst hj
      obtain ⟨-, hsame⟩ | ⟨-, hinvalid⟩ := hfades kind
      · exact hsame
      · exact absurd hinvalid htoken
    next => rfl
  have hentries : ∀ j,
      EntryOk ((((r.put i e).countOut first).countOut second).entry j) issued := by
    intro j
    rw [hentry]
    split
    · exact he
    · exact hr.entries j
  constructor
  case next => simpa using hr.next
  case entries => exact hentries
  case distinct =>
    intro j kind k other hop htoken
    have hvalid := ((hentries j kind).token_iff).mp hop
    have hvalid' := htoken.trans_ne hvalid
    rw [hold _ _ hvalid', hold _ _ hvalid] at htoken
    rw [← slotAt, hold _ _ hvalid] at hvalid
    exact hr.distinct j kind k other ((hr.entries j kind).token_iff.mpr hvalid) htoken
  case count =>
    rw [stored_countOut, stored_countOut, hsecond, hfirst, hactive]
    omega
  case few =>
    rw [stored_countOut, stored_countOut]
    omega

/-- The entry is not rewritten, except for its flags. -/
theorem keep (hr : Represents r issued) (hissued : issued < 2 ^ 64) {i : Nat}
    {e : FdOps Op} (hfades : (r.entry i).Fades e) (he : EntryOk e issued)
    (hops : e.ops.length = (r.entry i).ops.length) :
    Represents (r.put i e) issued :=
  hr.leave hissued none none hfades he hops

theorem store (hr : Represents r issued) (hissued : issued + 1 < 2 ^ 64) {i : Nat}
    {kind : FdEventKind} (hready : (r.slotAt i kind).ready = false) (op : Op) :
    Represents
      { r.put i ((r.entry i).markTracked.setSlot
          ((r.slotAt i kind).store op r.nextToken) kind) with
        nextToken := FixedWidth.incr 64 r.nextToken
        activeCount :=
          if (r.slotAt i kind).op.isSome then r.activeCount
          else FixedWidth.incr 64 r.activeCount }
      (issued + 1) := by
  have hnext : r.nextToken = issued + 1 :=
    hr.next.trans (FixedWidth.truncate_of_lt hissued)
  have hput := r.stored_put i ((r.entry i).markTracked.setSlot
    ((r.slotAt i kind).store op r.nextToken) kind)
  have hset := (r.entry i).markTracked.length_ops_setSlot
    ((r.slotAt i kind).store op r.nextToken) kind
  rw [FdOps.slotFor_markTracked, FdOps.ops_markTracked] at hset
  have hone : ((r.slotAt i kind).store op r.nextToken).op.toList.length = 1 := rfl
  have hfew := hr.few
  have hcount := hr.count
  generalize hnew : (r.entry i).markTracked.setSlot
    ((r.slotAt i kind).store op r.nextToken) kind = e at hput hset ⊢
  have hslot : ∀ other, e.slotFor other =
      if other = kind then (r.slotAt i kind).store op r.nextToken
      else r.slotAt i other := by
    intro other
    rw [← hnew, FdOps.slotFor_setSlot, FdOps.slotFor_markTracked, slotAt, slotAt]
  have hnewOk : EntryOk e (issued + 1) := by
    rw [← hnew]
    refine EntryOk.setSlot (fun other => ?_) ?_ kind
    · exact ((hr.entries i).markTracked other).mono (Nat.le_succ _)
    · rw [hnext]
      exact SlotOk.store hready op (Nat.succ_ne_zero _)
  have hentry := r.entry_put i (e := e)
  -- every slot but the new one is as before
  have hslots : ∀ j other, ((r.put i e).slotAt j other).token =
      if j = i ∧ other = kind then issued + 1 else (r.slotAt j other).token := by
    intro j other
    by_cases hj : j = i
    · subst hj
      rw [slotAt, hentry, if_pos rfl, hslot]
      by_cases hother : other = kind
      · rw [if_pos hother, if_pos ⟨rfl, hother⟩, ← hnext]
        rfl
      · rw [if_neg hother, if_neg fun hboth => hother hboth.2]
    · rw [slotAt, hentry, if_neg hj, if_neg fun hboth => hj hboth.1]
      rfl
  have hentries : ∀ j, EntryOk ((r.put i e).entry j) (issued + 1) := by
    intro j
    rw [hentry]
    split
    · exact hnewOk
    · exact fun other => (hr.entries j other).mono (Nat.le_succ _)
  constructor
  case next =>
    rw [hr.next]
    exact FixedWidth.incr_truncate 64 (issued + 1)
  case entries => exact hentries
  case distinct =>
    intro j one k other hop htoken
    have hvalid := (hentries j one).token_iff.mp hop
    change ((r.put i e).slotAt k other).token = ((r.put i e).slotAt j one).token
      at htoken
    rw [← slotAt] at hvalid
    rw [hslots] at hvalid
    rw [hslots, hslots] at htoken
    have hj := (hr.entries j one).issued
    have hk := (hr.entries k other).issued
    rw [← slotAt] at hj hk
    split at htoken
    next hnewk =>
      split at htoken
      next hnewj => exact ⟨hnewk.1.trans hnewj.1.symm, hnewk.2.trans hnewj.2.symm⟩
      next => omega
    next =>
      split at htoken
      next => omega
      next hnewj =>
        rw [if_neg hnewj] at hvalid
        exact hr.distinct j one k other ((hr.entries j one).token_iff.mpr hvalid) htoken
  case count =>
    change (if (r.slotAt i kind).op.isSome = true then r.activeCount
      else FixedWidth.incr 64 r.activeCount) = (r.put i e).stored.length
    rw [slotAt] at hset hone ⊢
    cases hop : ((r.entry i).slotFor kind).op with
    | some old =>
        rw [hop] at hset
        simp only [Option.isSome_some, if_true, Option.toList_some,
          List.length_singleton] at hset ⊢
        omega
    | none =>
        rw [hop] at hset
        have hincr : FixedWidth.incr 64 r.activeCount = r.activeCount + 1 :=
          FixedWidth.incr_of_lt (by omega)
        simp only [Option.isSome_none, Bool.false_eq_true, if_false, Option.toList_none,
          List.length_nil] at hset ⊢
        omega
  case few =>
    change (r.put i e).stored.length ≤ issued + 1
    omega

theorem drainAll (hr : Represents r issued) : Represents r.drainAll.1 issued := by
  rw [FdRegistry.drainAll]
  split
  · exact hr
  · have hentry : ∀ i, ({ r with operations := [], activeCount := 0 } :
        FdRegistry Op).entry i = {} := fun _ => rfl
    exact {
      next := hr.next
      entries := fun i => EntryOk.default issued
      distinct := by
        intro i kind j other hop
        rw [slotAt, hentry] at hop
        cases kind <;> cases hop
      count := rfl
      few := Nat.zero_le _ }

end Represents

/-! ### One call -/

namespace Call

variable {r : FdRegistry Op} {issued : Nat}

theorem registerImpl_none (r : FdRegistry Op) (fd : Int) (kind : FdEventKind) :
    r.registerImpl fd none kind = (r, {}) ∨
      r.registerImpl fd none kind =
        ((r.put fd.toNat ((r.entry fd.toNat).markTracked.setSlot
            (r.slotAt fd.toNat kind).clear kind)).countOut (r.slotAt fd.toNat kind).op,
          { replaced := (r.slotAt fd.toNat kind).op }) := by
  rw [registerImpl]
  split
  · exact .inl rfl
  · split
    · exact .inl rfl
    · right
      simp only [FdOps.slotFor_markTracked]
      rfl

theorem length_toList_le (r : FdRegistry Op) (i : Nat) (kind : FdEventKind) :
    (r.slotAt i kind).op.toList.length ≤ r.stored.length := by
  have hops := (r.entry i).length_ops
  have hle := r.length_ops_le_stored i
  rw [slotAt]
  cases kind <;> omega

theorem represents_register (hr : Represents r issued) (hissued : issued < 2 ^ 64)
    (fd : Int) (op : Option Op) (kind : FdEventKind)
    (hnew : op.isSome = true → issued + 1 < 2 ^ 64) :
    ∃ issued', issued' ≤ issued + op.isSome.toNat ∧
      Represents (r.registerImpl fd op kind).1 issued' := by
  cases op with
  | none =>
      refine ⟨issued, Nat.le_refl _, ?_⟩
      obtain hsame | hclear := registerImpl_none r fd kind
      · exact hsame ▸ hr
      · rw [hclear]
        refine hr.leave hissued _ none
          (FdOps.fades_setSlot (FdOps.slotFor_markTracked _) (Slot.fades_clear _)) ?_ ?_
        · exact (hr.entries fd.toNat).markTracked.setSlot
            (hr.entries fd.toNat kind).markTracked.clear kind
        · have hset := (r.entry fd.toNat).markTracked.length_ops_setSlot
            (r.slotAt fd.toNat kind).clear kind
          rw [FdOps.slotFor_markTracked, FdOps.ops_markTracked] at hset
          exact hset
  | some op =>
      by_cases hfd : fd < 0
      · rw [registerImpl, if_pos hfd]
        exact ⟨issued, Nat.le_succ _, hr⟩
      · rw [registerImpl_some r (by omega)]
        split
        · refine ⟨issued, Nat.le_succ _, hr.keep hissued
            (FdOps.fades_setSlot (FdOps.slotFor_markTracked _) (Slot.fades_consume _))
            ?_ ?_⟩
          · exact (hr.entries fd.toNat).markTracked.setSlot
              (hr.entries fd.toNat kind).markTracked.consume kind
          · have hset := (r.entry fd.toNat).markTracked.length_ops_setSlot
              (r.slotAt fd.toNat kind).consume kind
            rw [FdOps.slotFor_markTracked, FdOps.ops_markTracked] at hset
            exact Nat.add_right_cancel hset
        next hready =>
          exact ⟨issued + 1, Nat.le_refl _,
            hr.store (hnew rfl) (Bool.eq_false_of_not_eq_true hready) op⟩

theorem represents_cancel (hr : Represents r issued) (hissued : issued < 2 ^ 64)
    (fd : Int) (kind : FdEventKind) (token : Nat) :
    Represents (r.cancel fd kind token).1 issued := by
  rw [cancel_eq]
  split
  · refine hr.leave hissued _ none
      (FdOps.fades_setSlot (fun _ => rfl) (Slot.fades_clear _)) ?_ ?_
    · exact (hr.entries fd.toNat).setSlot (hr.entries fd.toNat kind).clear kind
    · exact (r.entry fd.toNat).length_ops_setSlot (r.slotAt fd.toNat kind).clear kind
  · exact hr

theorem represents_deregister (hr : Represents r issued) (hissued : issued < 2 ^ 64)
    (fd : Int) : Represents (r.deregister fd).1 issued := by
  rw [FdRegistry.deregister]
  split
  · refine hr.leave hissued _ _ (fun kind => ?_) (EntryOk.default issued) ?_
    · cases kind <;> exact .inr ⟨rfl, rfl⟩
    · have hops := (r.entry fd.toNat).length_ops
      have hempty : ({} : FdOps Op).ops.length = 0 := rfl
      rw [hempty, hops, Nat.zero_add]
      rfl
  · exact hr

theorem represents_track (hr : Represents r issued) (hissued : issued < 2 ^ 64)
    (fd : Int) : Represents (r.track fd) issued := by
  rw [FdRegistry.track]
  split
  · exact hr
  · refine hr.keep hissued (fun kind => ?_) (hr.entries fd.toNat).markTracked rfl
    rw [FdOps.slotFor_markTracked]
    exact Slot.fades_refl _

theorem length_signal (slot : Slot Op) (signalled : Bool) :
    (if signalled then slot.signal else slot).op.toList.length +
        (if signalled then slot.op else none).toList.length =
      slot.op.toList.length := by
  cases signalled with
  | true =>
      rw [if_pos rfl, if_pos rfl, Slot.signal_op]
      exact Nat.zero_add _
  | false => rfl

theorem represents_takeReady (hr : Represents r issued) (hissued : issued < 2 ^ 64)
    (fd : Int) (canRead canWrite : Bool) :
    Represents (r.takeReady fd canRead canWrite).1 issued := by
  rw [FdRegistry.takeReady]
  split
  · exact hr
  · simp only
    split
    · exact hr
    next htracked =>
      replace htracked : (r.entry fd.toNat).tracked = true := by simpa using htracked
      have hok := hr.entries fd.toNat
      rw [EntryOk, htracked] at hok
      refine hr.leave hissued _ _ (fun kind => ?_) (fun kind => ?_) ?_
      · cases kind with
        | read => cases canRead; exact Slot.fades_refl _; exact Slot.fades_signal _
        | write => cases canWrite; exact Slot.fades_refl _; exact Slot.fades_signal _
      · change SlotOk _ (r.entry fd.toNat).tracked issued
        rw [htracked]
        cases kind with
        | read => cases canRead; exact hok .read; exact (hok .read).signal
        | write => cases canWrite; exact hok .write; exact (hok .write).signal
      · have hread := length_signal (r.entry fd.toNat).read canRead
        have hwrite := length_signal (r.entry fd.toNat).write canWrite
        simp only [FdOps.ops, List.length_append]
        omega

/-- What one call keeps. -/
theorem represents (call : Call Op) (hr : Represents r issued)
    (hissued : issued < 2 ^ 64)
    (hnew : call.registers = true → issued + 1 < 2 ^ 64) :
    ∃ issued', issued' ≤ issued + call.registers.toNat ∧
      Represents (call.apply r) issued' := by
  cases call with
  | register fd op kind => exact represents_register hr hissued fd op kind hnew
  | cancel fd kind token =>
      exact ⟨issued, Nat.le_refl _, represents_cancel hr hissued fd kind token⟩
  | deregister fd => exact ⟨issued, Nat.le_refl _, represents_deregister hr hissued fd⟩
  | track fd => exact ⟨issued, Nat.le_refl _, represents_track hr hissued fd⟩
  | takeReady fd canRead canWrite =>
      exact ⟨issued, Nat.le_refl _, represents_takeReady hr hissued fd canRead canWrite⟩
  | drainAll => exact ⟨issued, Nat.le_refl _, hr.drainAll⟩

/-- What is counted out was stored. -/
theorem decrements_le (r : FdRegistry Op) (call : Call Op) :
    call.decrements r ≤ r.stored.length := by
  cases call with
  | register fd op kind =>
      cases op with
      | some op => exact Nat.zero_le _
      | none =>
          rw [decrements]
          obtain hsame | hclear := registerImpl_none r fd kind
          · rw [hsame]
            exact Nat.zero_le _
          · rw [hclear]
            exact length_toList_le r fd.toNat kind
  | cancel fd kind token =>
      rw [decrements, cancel_eq]
      split
      · exact length_toList_le r fd.toNat kind
      · exact Nat.zero_le _
  | deregister fd =>
      rw [decrements, FdRegistry.deregister]
      split
      · exact (r.entry fd.toNat).length_ops ▸ r.length_ops_le_stored fd.toNat
      · exact Nat.zero_le _
  | track fd => exact Nat.zero_le _
  | takeReady fd canRead canWrite =>
      rw [decrements, FdRegistry.takeReady]
      split
      · exact Nat.zero_le _
      · simp only
        split
        · exact Nat.zero_le _
        · have hread := length_signal (r.entry fd.toNat).read canRead
          have hwrite := length_signal (r.entry fd.toNat).write canWrite
          have hops := (r.entry fd.toNat).length_ops
          have hle := r.length_ops_le_stored fd.toNat
          simp only [FdOps.slotFor] at hops ⊢
          omega
  | drainAll => exact Nat.zero_le _

theorem entry_other (r : FdRegistry Op) (call : Call Op) {fd : Int}
    (hfd : call.fd? = some fd) {i : Nat} (hne : fd ≠ i) :
    (call.apply r).entry i = r.entry i := by
  cases call with
  | drainAll => nomatch hfd
  | register other op kind =>
      cases hfd
      exact r.registerImpl_entry_ne hne op kind
  | cancel other kind token =>
      cases hfd
      exact r.cancel_entry_ne hne kind token
  | deregister other =>
      cases hfd
      exact r.deregister_entry_ne hne
  | track other =>
      cases hfd
      exact r.track_entry_ne hne
  | takeReady other canRead canWrite =>
      cases hfd
      exact r.takeReady_entry_ne hne canRead canWrite

theorem slotAt_put_setSlot (r : FdRegistry Op) {i : Nat} {e : FdOps Op}
    (hsame : ∀ other, e.slotFor other = r.slotAt i other) (slot : Slot Op)
    {kind other : FdEventKind} {j : Nat} (hne : ¬ (j = i ∧ other = kind)) :
    (r.put i (e.setSlot slot kind)).slotAt j other = r.slotAt j other := by
  rw [slotAt, entry_put]
  split
  next hj =>
    subst hj
    rw [FdOps.slotFor_setSlot, if_neg fun hother => hne ⟨rfl, hother⟩, hsame]
  next => rfl

/-- A call other than `drain_all` changes the slots it is for, and no others. -/
theorem slotAt_other (r : FdRegistry Op) (call : Call Op) {i : Nat} {kind : FdEventKind}
    (hother : ¬ call.Concerns i kind) :
    (call.apply r).slotAt i kind = r.slotAt i kind := by
  have hmarked : ∀ (j : Nat) other,
      (r.entry j).markTracked.slotFor other = r.slotAt j other := fun j other =>
    FdOps.slotFor_markTracked _ _
  cases call with
  | register fd op target =>
      by_cases hneg : fd < 0
      · rw [apply, registerImpl, if_pos hneg]
      · have hne : ¬ (i = fd.toNat ∧ kind = target) := by
          rintro ⟨rfl, rfl⟩
          exact hother ⟨by omega, rfl⟩
        cases op with
        | none =>
            rw [apply]
            obtain hsame | hclear := registerImpl_none r fd target
            · rw [hsame]
            · rw [hclear, slotAt, countOut_entry]
              exact slotAt_put_setSlot r (hmarked _) _ hne
        | some op =>
            rw [apply, registerImpl_some r (by omega)]
            split
            · exact slotAt_put_setSlot r (hmarked _) _ hne
            · exact slotAt_put_setSlot r (hmarked _) _ hne
  | cancel fd target token =>
      rw [apply, cancel_eq]
      split
      next hfound =>
        have hne : ¬ (i = fd.toNat ∧ kind = target) := by
          rintro ⟨rfl, rfl⟩
          exact hother ⟨by omega, rfl⟩
        rw [slotAt, countOut_entry]
        exact slotAt_put_setSlot r (fun _ => rfl) _ hne
      next => rfl
  | deregister fd => rw [slotAt, entry_other r (deregister fd) rfl hother, slotAt]
  | track fd => exact r.track_slotAt fd i kind
  | takeReady fd canRead canWrite =>
      by_cases hfd : fd = i
      · subst hfd
        have hpick : kind.pick canRead canWrite = false := by
          simpa [Concerns] using hother
        by_cases htracked : (r.entry i).tracked = true
        · have hslot := (takeReady_of_tracked htracked canRead canWrite kind).1
          rw [hpick] at hslot
          exact hslot
        · rw [apply, FdRegistry.takeReady]
          split
          · rfl
          · simp only
            rw [if_pos (by simpa using htracked)]
      · rw [slotAt, entry_other r (takeReady fd canRead canWrite) rfl hfd, slotAt]
  | drainAll => exact absurd trivial hother

end Call

/-! ### A run -/

theorem run_append (calls : List (Call Op)) (call : Call Op) :
    run (calls ++ [call]) = call.apply (run calls) := by
  rw [run, List.foldl_append]
  rfl

theorem registrations_append (calls : List (Call Op)) (call : Call Op) :
    registrations (calls ++ [call]) = registrations calls + call.registers.toNat := by
  rw [registrations, List.countP_append, List.countP_singleton]
  cases call.registers <;> rfl

/-- The calls of a run have given out a token each at most. -/
theorem represents_run (calls : List (Call Op)) (hfew : registrations calls < 2 ^ 64) :
    ∃ issued, issued ≤ registrations calls ∧ Represents (run calls) issued := by
  induction calls using List.reverseRecOn with
  | nil => exact ⟨0, Nat.le_refl _, .empty⟩
  | append_singleton calls call ih =>
      rw [registrations_append] at hfew ⊢
      obtain ⟨issued, hle, hr⟩ := ih (by omega)
      obtain ⟨issued', hle', hr'⟩ := call.represents hr (by omega) (fun hnew => by
        rw [hnew] at hfew
        have hone : true.toNat = 1 := rfl
        omega)
      rw [run_append]
      exact ⟨issued', by omega, hr'⟩

/-- Nothing is stored when no slot holds an operation. -/
theorem stored_length_eq_zero_iff (r : FdRegistry Op) :
    r.stored.length = 0 ↔ ∀ i kind, (r.slotAt i kind).op = none := by
  constructor
  · intro hzero i kind
    have hle := Call.length_toList_le r i kind
    rw [hzero] at hle
    cases hop : (r.slotAt i kind).op with
    | none => rfl
    | some op =>
        rw [hop] at hle
        cases hle
  · intro hnone
    rw [List.length_eq_zero_iff, stored, List.flatMap_eq_nil_iff]
    intro e he
    obtain ⟨i, hi, rfl⟩ := List.getElem_of_mem he
    have hentry : r.entry i = r.operations[i] := List.getD_eq_getElem _ _ hi
    have hread := hnone i .read
    have hwrite := hnone i .write
    rw [slotAt, hentry] at hread hwrite
    change r.operations[i].read.op.toList ++ r.operations[i].write.op.toList = []
    change r.operations[i].read.op = none at hread
    change r.operations[i].write.op = none at hwrite
    rw [hread, hwrite]
    rfl

/-- Fewer than 2^64 registrations give each stored operation a token of its own, but
the last of them leaves `next_token_` at 0. -/
theorem nextToken_wraps :
    ∃ calls : List (Call Unit), registrations calls < 2 ^ 64 ∧
      ∃ i kind, ((run calls).slotAt i kind).op.isSome = true ∧
        ¬ ((run calls).slotAt i kind).token < (run calls).nextToken := by
  have hrun : ∀ k : Nat, 0 < k → k < 2 ^ 64 →
      ((run (List.replicate k (.register 0 (some ()) .read))).slotAt 0 .read).ready =
          false ∧
        ((run (List.replicate k (.register 0 (some ()) .read))).slotAt 0 .read).op =
          some () ∧
        (run (List.replicate k (.register 0 (some ()) .read))).nextToken =
          FixedWidth.truncate 64 (k + 1) := by
    intro k hk hlt
    induction k with
    | zero => cases hk
    | succ k ih =>
        rw [List.replicate_succ', run_append]
        generalize hcalls : run (List.replicate k (Call.register 0 (some ()) .read)) = r
          at ih
        have hready : (r.slotAt 0 .read).ready = false ∧
            r.nextToken = FixedWidth.truncate 64 (k + 1) := by
          cases k with
          | zero =>
              subst hcalls
              exact ⟨rfl, rfl⟩
          | succ k =>
              have hlast := ih (Nat.succ_pos _) (by omega)
              exact ⟨hlast.1, hlast.2.2⟩
        have hfd : (0 : Int) ≤ 0 := Int.le_refl 0
        have hslot := (r.registerImpl_slotAt hfd () .read hready.1).2
        have hnext := r.registerImpl_nextToken hfd () .read hready.1
        refine ⟨r.registerImpl_ready hfd () .read, ?_, ?_⟩
        · exact (congrArg Slot.op hslot).trans rfl
        · rw [Call.apply, hnext, hready.2, FixedWidth.incr_truncate]
  obtain ⟨-, hop, hnext⟩ := hrun (2 ^ 64 - 1) (by decide) (by decide)
  refine ⟨List.replicate (2 ^ 64 - 1) (.register 0 (some ()) .read), ?_, 0, .read,
    ?_, ?_⟩
  · rw [registrations, List.countP_replicate]
    decide
  · rw [hop]
    rfl
  · rw [hnext]
    exact Nat.not_lt_zero _

/-- After any sequence of calls with fewer than 2^64 registrations: the count is that of
the stored operations and is never taken below 0; a slot's operation, token, latch and
its entry's tracked flag agree; tokens are distinct and were given out, so they are
below `next_token_` unless the very last one was; and a call changes nothing it is not
for. -/
theorem run_registry_invariant (calls : List (Call Op))
    (hfew : registrations calls < 2 ^ 64) :
    (run calls).activeCount = (run calls).stored.length ∧
    (∀ call : Call Op, call.decrements (run calls) ≤ (run calls).activeCount) ∧
    ((run calls).isEmpty = true ↔ ∀ i kind, ((run calls).slotAt i kind).op = none) ∧
    (∀ i kind,
      (((run calls).slotAt i kind).op.isSome = true ↔
        ((run calls).slotAt i kind).token ≠ invalidToken) ∧
      (((run calls).slotAt i kind).ready = true →
        ((run calls).slotAt i kind).op = none) ∧
      (((run calls).slotAt i kind).op.isSome = true ∨
          ((run calls).slotAt i kind).ready = true →
        ((run calls).entry i).tracked = true)) ∧
    (∀ i kind j other, ((run calls).slotAt i kind).op.isSome = true →
      ((run calls).slotAt j other).op.isSome = true →
      ((run calls).slotAt j other).token = ((run calls).slotAt i kind).token →
      j = i ∧ other = kind) ∧
    (registrations calls + 1 < 2 ^ 64 → ∀ i kind,
      ((run calls).slotAt i kind).token < (run calls).nextToken) ∧
    (∀ call : Call Op,
      (∀ i kind, ¬ call.Concerns i kind →
        (call.apply (run calls)).slotAt i kind = (run calls).slotAt i kind) ∧
      (∀ fd, call.fd? = some fd → ∀ i : Nat, fd ≠ i →
        (call.apply (run calls)).entry i = (run calls).entry i)) := by
  obtain ⟨issued, hissued, hr⟩ := represents_run calls hfew
  refine ⟨hr.count, fun call => ?_, ?_, fun i kind => ?_, ?_, fun hlt i kind => ?_,
    fun call => ⟨fun i kind hother => call.slotAt_other _ hother,
      fun fd hfd i hne => call.entry_other _ hfd hne⟩⟩
  · rw [hr.count]
    exact call.decrements_le _
  · rw [← stored_length_eq_zero_iff, ← hr.count]
    exact beq_iff_eq
  · have hslot := hr.entries i kind
    exact ⟨hslot.token_iff, hslot.latched, hslot.tracked⟩
  · intro i kind j other hop _ htoken
    exact hr.distinct i kind j other hop htoken
  · have hslot := (hr.entries i kind).issued
    rw [hr.next, FixedWidth.truncate_of_lt (by omega)]
    exact Nat.lt_succ_of_le hslot

theorem run_registry_invariant_register :
    registrations [Call.register 3 (some ()) .read, .takeReady 3 false true] < 2 ^ 64 ∧
    (run [Call.register 3 (some ()) .read, .takeReady 3 false true]).activeCount =
      (run [Call.register 3 (some ()) .read, .takeReady 3 false true]).stored.length :=
  ⟨by decide, (run_registry_invariant _ (by decide)).1⟩

end FdRegistry

end Iocoro
