/-
Waits in a registry.  The registry records a table of calls when it stores exactly those
that wait, each at the descriptor and in the direction of its wait; what takes a call out
of the registry wakes it.
-/
import Iocoro.FdRegistry

namespace Iocoro

namespace FdRegistry

universe u v

variable {α : Type u} {table : List α} {r : FdRegistry Nat}

/-- What an entry of the table says, such as where it waits. -/
def place {β : Type v} (waits : α → Option β) (table : List α) (i : Nat) : Option β :=
  table[i]?.bind waits

def Records (r : FdRegistry Nat) (waits : α → Option (Nat × FdEventKind))
    (table : List α) : Prop :=
  ∀ i n kind, (r.slotAt n kind).op = some i ↔ place waits table i = some (n, kind)

/-- The entry that has left the registry goes on. -/
def wake (f : α → α) (op : Option Nat) (table : List α) : List α :=
  match op with
  | some j => table.modify j f
  | none => table

section Place

variable {β : Type v} {waits : α → Option β}

theorem place_wake {f : α → α} (hf : ∀ a, waits (f a) = none) (op : Option Nat)
    (i : Nat) :
    place waits (wake f op table) i =
      if op = some i then none else place waits table i := by
  cases op with
  | none => rfl
  | some j =>
      rw [place, wake, List.getElem?_modify]
      by_cases hj : j = i
      · rw [if_pos (congrArg some hj)]
        simp only [hj, ↓reduceIte]
        cases table[i]? with
        | none => rfl
        | some a => exact hf a
      · rw [if_neg fun h => hj (Option.some.inj h)]
        simp only [hj, ↓reduceIte, id_map', place]

theorem place_set {i : Nat} {old new : α} (hi : table[i]? = some old) (j : Nat) :
    place waits (table.set i new) j =
      if i = j then waits new else place waits table j := by
  rw [place, List.getElem?_set]
  split
  · next hj => rw [if_pos (List.getElem?_eq_some_iff.mp hi).1]; rfl
  · rfl

theorem place_append {new : α} (hnew : waits new = none) (i : Nat) :
    place waits (table ++ [new]) i = place waits table i := by
  rw [place, place]
  by_cases hi : i < table.length
  · rw [List.getElem?_append_left hi]
  · have hlength : table.length ≤ i := Nat.le_of_not_lt hi
    rw [List.getElem?_append_right hlength, List.getElem?_eq_none hlength,
      List.getElem?_singleton]
    split
    · exact hnew
    · rfl

theorem place_of_getElem? {i : Nat} {a : α} (hi : table[i]? = some a) :
    place waits table i = waits a := by
  rw [place, hi]
  rfl

end Place

variable {waits : α → Option (Nat × FdEventKind)}

theorem records_empty : Records ({} : FdRegistry Nat) waits [] := by
  intro i n kind
  constructor
  · intro hstored
    cases kind with
    | read | write => cases hstored
  · intro hplace
    cases hplace

/-- Calls come, and go on without waiting. -/
theorem Records.congr {other : List α} (hr : Records r waits table)
    (hplace : ∀ i, place waits other i = place waits table i) :
    Records r waits other := by
  intro i n kind
  rw [hplace]
  exact hr i n kind

theorem Records.track (hr : Records r waits table) (n : Nat) :
    Records (r.track n) waits table := by
  intro i m kind
  rw [track_slotAt]
  exact hr i m kind

/-- A wait is recorded in one place. -/
theorem Records.unique (hr : Records r waits table) {i n m : Nat}
    {kind other : FdEventKind} (hstored : (r.slotAt n kind).op = some i)
    (hother : (r.slotAt m other).op = some i) : n = m ∧ kind = other := by
  have hplace := ((hr i n kind).mp hstored).symm.trans ((hr i m other).mp hother)
  exact Prod.mk.inj (Option.some.inj hplace)

/-- What left the registry is `op`, and it is woken. -/
theorem Records.remove {t : FdRegistry Nat} {f : α → α} (hr : Records r waits table)
    (hf : ∀ a, waits (f a) = none) (op : Option Nat)
    (hslots : ∀ i n kind, (t.slotAt n kind).op = some i ↔
      (r.slotAt n kind).op = some i ∧ op ≠ some i) :
    Records t waits (wake f op table) := by
  intro i n kind
  rw [hslots, hr i n kind, place_wake hf]
  split
  · next hop => simp [hop]
  · next hop => simp [hop]

/-- The slot of the cancelled wait is empty, and the others are as they were. -/
theorem cancel_slots (r : FdRegistry Nat) (n : Nat) (kind : FdEventKind) (token : Nat)
    (m : Nat) (other : FdEventKind) :
    ((r.cancel n kind token).1.slotAt m other).op = (r.slotAt m other).op ∧
        ((r.cancel n kind token).2.removed = none ∨ m ≠ n ∨ other ≠ kind) ∨
      ((r.cancel n kind token).1.slotAt m other).op = none ∧
        (r.cancel n kind token).2.removed = (r.slotAt m other).op := by
  cases hremoved : (r.cancel n kind token).2.removed with
  | none =>
      left
      rw [r.cancel_unmatched n kind token hremoved]
      exact ⟨rfl, .inl rfl⟩
  | some op =>
      by_cases hm : m = n
      · by_cases hother : other = kind
        · right
          subst hm hother
          have hgone := r.cancel_removed m other token (by rw [hremoved]; rfl)
          exact ⟨hgone, (r.cancel_removed_eq m other token hremoved).symm⟩
        · left
          rw [r.cancel_slotAt_other n token hother]
          exact ⟨rfl, .inr (.inr hother)⟩
      · left
        have hne : (n : Int) ≠ m := fun h => hm (Int.ofNat_inj.mp h).symm
        rw [slotAt, r.cancel_entry_ne hne]
        exact ⟨rfl, .inr (.inl hm)⟩

theorem Records.cancel {f : α → α} (hr : Records r waits table)
    (hf : ∀ a, waits (f a) = none) (n : Nat) (kind : FdEventKind) (token : Nat) :
    Records (r.cancel n kind token).1 waits
      (wake f (r.cancel n kind token).2.removed table) := by
  refine hr.remove hf _ fun i m other => ?_
  rcases r.cancel_slots n kind token m other with ⟨hkeep, hwhy⟩ | ⟨hnone, hremoved⟩
  · rw [hkeep]
    constructor
    · intro hstored
      refine ⟨hstored, fun hremoved => ?_⟩
      have hplace := hr.unique hstored (r.cancel_removed_eq n kind token hremoved)
      rw [Int.toNat_natCast] at hplace
      rcases hwhy with hnone | hm | hother
      · rw [hremoved] at hnone
        cases hnone
      · exact hm hplace.1
      · exact hother hplace.2
    · exact And.left
  · rw [hnone, hremoved]
    constructor
    · intro h
      cases h
    · rintro ⟨hstored, hne⟩
      exact absurd hstored hne

theorem takeReady_slots_ne (r : FdRegistry Nat) {n m : Nat} (canRead canWrite : Bool)
    (hm : m ≠ n) (kind : FdEventKind) :
    (r.takeReady n canRead canWrite).1.slotAt m kind = r.slotAt m kind := by
  have hne : (n : Int) ≠ m := fun h => hm (Int.ofNat_inj.mp h).symm
  rw [slotAt, r.takeReady_entry_ne hne]
  rfl

/-- An event takes what it signals out of the slots of its descriptor. -/
theorem Records.takeReady {f : α → α} (hr : Records r waits table)
    (hf : ∀ a, waits (f a) = none) (n : Nat) (canRead canWrite : Bool) :
    Records (r.takeReady n canRead canWrite).1 waits
      (wake f (r.takeReady n canRead canWrite).2.write
        (wake f (r.takeReady n canRead canWrite).2.read table)) := by
  have htaken : ∀ kind i, (r.takeReady n canRead canWrite).2.get kind = some i →
      (r.slotAt n kind).op = some i := by
    intro kind i hget
    rcases r.takeReady_slotAt n canRead canWrite kind with ⟨hop, _⟩ | ⟨hnone, _⟩
    · rw [Int.toNat_natCast] at hop
      exact hop.symm.trans hget
    · rw [hget] at hnone
      cases hnone
  have hslots : ∀ i m kind,
      ((r.takeReady n canRead canWrite).1.slotAt m kind).op = some i ↔
        (r.slotAt m kind).op = some i ∧
          ∀ direction, (r.takeReady n canRead canWrite).2.get direction ≠ some i := by
    intro i m kind
    by_cases hm : m = n
    · subst hm
      rcases r.takeReady_slotAt m canRead canWrite kind with
        ⟨hget, hnone⟩ | ⟨hget, hkeep, _⟩
      · rw [Int.toNat_natCast] at hget hnone
        rw [hnone, ← hget]
        constructor
        · intro h
          cases h
        · rintro ⟨hstored, hne⟩
          exact absurd hstored (hne kind)
      · rw [Int.toNat_natCast] at hkeep
        rw [hkeep]
        constructor
        · intro hstored
          refine ⟨hstored, fun direction hdirection => ?_⟩
          obtain ⟨-, rfl⟩ := hr.unique hstored (htaken direction i hdirection)
          rw [hdirection] at hget
          cases hget
        · exact And.left
    · rw [takeReady_slots_ne r canRead canWrite hm kind]
      constructor
      · intro hstored
        refine ⟨hstored, fun direction hdirection => hm ?_⟩
        exact (hr.unique hstored (htaken direction i hdirection)).1
      · exact And.left
  intro i m kind
  rw [hslots, hr i m kind, place_wake hf, place_wake hf]
  by_cases hwrite : (r.takeReady n canRead canWrite).2.write = some i
  · rw [if_pos hwrite]
    constructor
    · rintro ⟨_, hne⟩
      exact absurd hwrite (hne .write)
    · intro h
      cases h
  · rw [if_neg hwrite]
    by_cases hread : (r.takeReady n canRead canWrite).2.read = some i
    · rw [if_pos hread]
      constructor
      · rintro ⟨_, hne⟩
        exact absurd hread (hne .read)
      · intro h
        cases h
    · rw [if_neg hread]
      refine ⟨And.left, fun hplace => ⟨hplace, fun direction => ?_⟩⟩
      cases direction with
      | read => exact hread
      | write => exact hwrite

/-- A registration that finds readiness latched leaves the waits as they are. -/
theorem registerImpl_op (r : FdRegistry Nat) (n i : Nat) (kind : FdEventKind) (m : Nat)
    (other : FdEventKind) :
    ((r.registerImpl n (some i) kind).1.slotAt m other).op =
      if (r.slotAt n kind).ready = false ∧ m = n ∧ other = kind then some i
      else (r.slotAt m other).op := by
  have hn : (0 : Int) ≤ n := Int.natCast_nonneg n
  by_cases hm : m = n
  · subst hm
    by_cases hother : other = kind
    · subst hother
      cases hready : (r.slotAt m other).ready with
      | false =>
          have hslot := (r.registerImpl_slotAt hn i other hready).2
          rw [Int.toNat_natCast] at hslot
          rw [hslot, if_pos ⟨rfl, rfl, rfl⟩]
          rfl
      | true =>
          rw [registerImpl_some r hn, Int.toNat_natCast, if_pos hready, if_neg (by simp),
            slotAt, entry_put, if_pos rfl, FdOps.slotFor_setSlot, if_pos rfl]
          rfl
    · rw [r.registerImpl_slotAt_other hn i hother, if_neg fun h => hother h.2.2]
  · have hne : m ≠ (n : Int).toNat := by rwa [Int.toNat_natCast]
    rw [r.registerImpl_slotAt_ne hn i kind other hne, if_neg fun h => hm h.2.1]

theorem Records.registerReady {n i : Nat} {kind : FdEventKind} {old new : α}
    (hr : Records r waits table) (hi : table[i]? = some old) (hold : waits old = none)
    (hnew : waits new = none)
    (hready : (r.registerImpl n (some i) kind).2.readyNow.isSome = true) :
    Records (r.registerImpl n (some i) kind).1 waits (table.set i new) := by
  have hlatched : (r.slotAt n kind).ready = true := by
    rwa [r.registerImpl_readyNow (Int.natCast_nonneg n)] at hready
  intro j m other
  rw [registerImpl_op, if_neg (by simp [hlatched]), hr j m other, place_set hi]
  split
  · next hj =>
      subst hj
      rw [place_of_getElem? hi, hold, hnew]
  · rfl

/-- A wait is stored in a slot that was empty. -/
theorem Records.register {n i : Nat} {kind : FdEventKind} {old new : α}
    (hr : Records r waits table) (hi : table[i]? = some old) (hold : waits old = none)
    (hnew : waits new = some (n, kind)) (hempty : (r.slotAt n kind).op = none)
    (hready : (r.registerImpl n (some i) kind).2.readyNow = none) :
    Records (r.registerImpl n (some i) kind).1 waits (table.set i new) := by
  have hlatched : (r.slotAt n kind).ready = false := by
    have hnone := congrArg Option.isSome hready
    rwa [r.registerImpl_readyNow (Int.natCast_nonneg n)] at hnone
  intro j m other
  rw [registerImpl_op, place_set hi]
  by_cases hslot : m = n ∧ other = kind
  · obtain ⟨rfl, rfl⟩ := hslot
    rw [if_pos ⟨hlatched, rfl, rfl⟩]
    split
    · next hj =>
        subst hj
        exact ⟨fun _ => hnew, fun _ => rfl⟩
    · next hj =>
        have hnone := hr j m other
        rw [hempty] at hnone
        constructor
        · intro h
          exact absurd (Option.some.inj h) hj
        · intro h
          cases hnone.mpr h
  · rw [if_neg fun h => hslot h.2, hr j m other]
    split
    · next hj =>
        subst hj
        rw [place_of_getElem? hi, hold, hnew]
        constructor
        · intro h
          cases h
        · intro h
          exact absurd (Prod.mk.inj (Option.some.inj h)) fun ⟨hm, hother⟩ =>
            hslot ⟨hm.symm, hother.symm⟩
    · rfl

theorem registerImpl_replaced (r : FdRegistry Nat) (n i : Nat) (kind : FdEventKind)
    (hempty : (r.slotAt n kind).op = none) :
    (r.registerImpl n (some i) kind).2.replaced = none := by
  rw [r.registerImpl_result (Int.natCast_nonneg n), Int.toNat_natCast]
  split
  · rfl
  · exact hempty

end FdRegistry

end Iocoro
