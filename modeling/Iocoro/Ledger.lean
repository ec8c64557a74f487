/-
Ledgers of numbered handles.  An allocator gives out numbers, and may give one
out again once it has come back, so a number alone does not say which handle is
meant: every handle that is taken in opens an entry of its own.  A balanced
ledger has each entry in exactly one place.
-/
import Mathlib.Data.List.Count
import Mathlib.Data.List.Perm.Basic
import Mathlib.Data.List.Range
import Mathlib.Logic.Function.Basic

universe u

/-- Who has the handle that a number stands for. -/
inductive Ledger.Holder where
  | free
  | outside
  | entry (index : Nat)
deriving DecidableEq, Repr

/-- A number as its holder knows it; `entry` says which handle of that number is
meant. -/
structure Ledger.Handle (κ : Type u) where
  number : κ
  entry : Nat
deriving DecidableEq, Repr

/-- `table` says who has the handle that a number stands for at present.
`closed` and `released` are the entries that were closed or handed out, one item
for every time, and `stray` counts the calls that met no handle of the ledger. -/
structure Ledger (κ : Type u) where
  table : κ → Ledger.Holder := fun _ => .free
  entries : Nat := 0
  closed : List Nat := []
  released : List Nat := []
  stray : Nat := 0

namespace Ledger

variable {κ : Type u}

/-- The handle that the next entry will stand for. -/
def next (l : Ledger κ) (n : κ) : Handle κ := { number := n, entry := l.entries }

section Operations

variable [DecidableEq κ]

def enter (l : Ledger κ) (n : κ) : Ledger κ :=
  { l with
    table := Function.update l.table n (.entry l.entries)
    entries := l.entries + 1 }

/-- Whatever handle the number stands for is closed. -/
def close (l : Ledger κ) (n : κ) : Ledger κ :=
  match l.table n with
  | .entry i =>
      { l with
        table := Function.update l.table n .free, closed := i :: l.closed }
  | _ =>
      { l with table := Function.update l.table n .free, stray := l.stray + 1 }

def handOut (l : Ledger κ) (n : κ) : Ledger κ :=
  match l.table n with
  | .entry i =>
      { l with
        table := Function.update l.table n .outside
        released := i :: l.released }
  | _ => { l with stray := l.stray + 1 }

/-- A number that is not in the ledger changes hands outside. -/
def outside (l : Ledger κ) (n : κ) (holder : Holder) : Ledger κ :=
  { l with table := Function.update l.table n holder }

end Operations

/-- What is held is in the table, and each entry is held, closed or handed out,
exactly once. -/
structure Balanced (l : Ledger κ) (holdings : List (Handle κ)) : Prop where
  owned : ∀ h ∈ holdings, l.table h.number = .entry h.entry
  once : ∀ i, (holdings.map Handle.entry).count i + l.closed.count i +
    l.released.count i = if i < l.entries then 1 else 0
  stray : l.stray = 0

variable {l : Ledger κ} {holdings : List (Handle κ)}

theorem balanced_empty : Balanced ({} : Ledger κ) [] where
  owned := by simp
  once := by simp
  stray := rfl

theorem Balanced.perm {other : List (Handle κ)} (hl : l.Balanced holdings)
    (hperm : other.Perm holdings) : l.Balanced other where
  owned h hh := hl.owned h (hperm.mem_iff.mp hh)
  once i := by
    rw [(hperm.map Handle.entry).count_eq i]
    exact hl.once i
  stray := hl.stray

theorem Balanced.lt_entries (hl : l.Balanced holdings) {h : Handle κ}
    (hh : h ∈ holdings) : h.entry < l.entries := by
  have honce := hl.once h.entry
  have hpos := List.count_pos_iff.mpr (List.mem_map_of_mem (f := Handle.entry) hh)
  by_contra hlarge
  rw [if_neg hlarge] at honce
  omega

/-- A handle that is held was neither closed nor handed out. -/
theorem Balanced.held (hl : l.Balanced holdings) {h : Handle κ}
    (hh : h ∈ holdings) : h.entry ∉ l.closed ∧ h.entry ∉ l.released := by
  have honce := hl.once h.entry
  have hpos := List.count_pos_iff.mpr (List.mem_map_of_mem (f := Handle.entry) hh)
  rw [if_pos (hl.lt_entries hh)] at honce
  constructor
  · rw [← List.count_eq_zero]
    omega
  · rw [← List.count_eq_zero]
    omega

/-- Two holders never have the same handle. -/
theorem Balanced.entry_ne {h other : Handle κ}
    (hl : l.Balanced (h :: holdings)) (hother : other ∈ holdings) :
    other.entry ≠ h.entry := by
  intro heq
  have honce := hl.once h.entry
  have hpos := List.count_pos_iff.mpr
    (List.mem_map_of_mem (f := Handle.entry) hother)
  rw [if_pos (hl.lt_entries List.mem_cons_self), List.map_cons,
    List.count_cons_self] at honce
  rw [heq] at hpos
  omega

theorem Balanced.number_ne {h other : Handle κ}
    (hl : l.Balanced (h :: holdings)) (hother : other ∈ holdings) :
    other.number ≠ h.number := by
  intro heq
  have hh := hl.owned h List.mem_cons_self
  have hmine := hl.owned other (List.mem_cons_of_mem _ hother)
  rw [heq, hh, Holder.entry.injEq] at hmine
  exact hl.entry_ne hother hmine.symm

section Operations

variable [DecidableEq κ]

theorem Balanced.enter (hl : l.Balanced holdings) {n : κ}
    (hn : ∀ i, l.table n ≠ .entry i) :
    (l.enter n).Balanced (l.next n :: holdings) where
  owned := by
    intro h hh
    rcases List.mem_cons.mp hh with rfl | hold
    · exact Function.update_self _ _ _
    · have howned := hl.owned h hold
      have hne : h.number ≠ n := by
        intro heq
        rw [heq] at howned
        exact hn _ howned
      exact (Function.update_of_ne hne _ _).trans howned
  once := by
    intro i
    have honce := hl.once i
    simp only [Ledger.enter, Ledger.next, List.map_cons, List.count_cons,
      beq_iff_eq]
    split at honce <;> split <;> grind
  stray := hl.stray

theorem Balanced.close {h : Handle κ} (hl : l.Balanced (h :: holdings)) :
    (l.close h.number).Balanced holdings := by
  have hentry := hl.owned h List.mem_cons_self
  simp only [Ledger.close, hentry]
  constructor
  · intro other hother
    exact (Function.update_of_ne (hl.number_ne hother) _ _).trans
      (hl.owned other (List.mem_cons_of_mem _ hother))
  · intro i
    have honce := hl.once i
    simp only [List.map_cons, List.count_cons] at honce ⊢
    omega
  · exact hl.stray

theorem Balanced.handOut {h : Handle κ} (hl : l.Balanced (h :: holdings)) :
    (l.handOut h.number).Balanced holdings := by
  have hentry := hl.owned h List.mem_cons_self
  simp only [Ledger.handOut, hentry]
  constructor
  · intro other hother
    exact (Function.update_of_ne (hl.number_ne hother) _ _).trans
      (hl.owned other (List.mem_cons_of_mem _ hother))
  · intro i
    have honce := hl.once i
    simp only [List.map_cons, List.count_cons] at honce ⊢
    omega
  · exact hl.stray

theorem Balanced.outside (hl : l.Balanced holdings) {n : κ}
    (hn : ∀ i, l.table n ≠ .entry i) (holder : Holder) :
    (l.outside n holder).Balanced holdings where
  owned := by
    intro h hh
    have howned := hl.owned h hh
    have hne : h.number ≠ n := by
      intro heq
      rw [heq] at howned
      exact hn _ howned
    exact (Function.update_of_ne hne _ _).trans howned
  once := hl.once
  stray := hl.stray

end Operations

/-- No entry was closed or handed out twice, or both. -/
theorem Balanced.nodup (hl : l.Balanced holdings) :
    (l.closed ++ l.released).Nodup := by
  rw [List.nodup_iff_count]
  intro i
  have honce := hl.once i
  rw [List.count_append]
  split at honce <;> omega

/-- Once nothing is held, every entry was closed or handed out. -/
theorem Balanced.settled (hl : l.Balanced []) :
    (l.closed ++ l.released).Perm (List.range l.entries) := by
  rw [List.perm_iff_count]
  intro i
  have honce := hl.once i
  rw [List.count_append, List.nodup_range.count]
  simpa using honce

end Ledger
