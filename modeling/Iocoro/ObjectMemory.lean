/-
Memory that holds objects at addresses.  An object is constructed where there is none and
destroyed where it is; anything else is undefined.  Each object has a number, so that a
log of the destroyed ones tells whether one was lost or destroyed twice.
-/
import Mathlib.Logic.Function.Basic
import Mathlib.Data.List.Nodup

universe u v

namespace Function

variable {α : Type u} {β : Type v} [DecidableEq α] {f : α → Option β} {a : α} {x y : β}

theorem eq_of_update_self (h : update f a (some x) a = some y) : x = y := by
  rw [update_self] at h
  exact Option.some.inj h

theorem ne_of_update_none {a' : α} (h : update f a none a' = some y) : a' ≠ a := by
  rintro rfl
  rw [update_self] at h
  cases h

end Function

/-- `made` objects have been constructed. -/
structure ObjectMemory (α : Type u) (β : Type v) where
  cells : α → Option (Nat × β) := fun _ => none
  made : Nat := 0
  destroyed : List Nat := []

namespace ObjectMemory

variable {α : Type u} {β : Type v} {m m' : ObjectMemory α β} {a : α} {n : Nat} {b : β}

def read (m : ObjectMemory α β) (a : α) : Option β := (m.cells a).map Prod.snd

section Operations

variable [DecidableEq α]

def construct (m : ObjectMemory α β) (a : α) (b : β) : Option (ObjectMemory α β) :=
  match m.cells a with
  | some _ => none
  | none => some { m with
      cells := Function.update m.cells a (some (m.made, b))
      made := m.made + 1 }

def destroy (m : ObjectMemory α β) (a : α) : Option (ObjectMemory α β) :=
  match m.cells a with
  | some (n, _) => some { m with
      cells := Function.update m.cells a none
      destroyed := m.destroyed ++ [n] }
  | none => none

def write (m : ObjectMemory α β) (a : α) (b : β) : Option (ObjectMemory α β) :=
  match m.cells a with
  | some (n, _) => some { m with cells := Function.update m.cells a (some (n, b)) }
  | none => none

end Operations

/-- Every object that was made is at one address, or was destroyed once. -/
structure Once (m : ObjectMemory α β) : Prop where
  live : ∀ a n b, m.cells a = some (n, b) → n < m.made ∧ n ∉ m.destroyed
  apart : ∀ a a' n b b', m.cells a = some (n, b) → m.cells a' = some (n, b') → a = a'
  nodup : m.destroyed.Nodup
  bounded : ∀ n ∈ m.destroyed, n < m.made
  kept : ∀ n < m.made, n ∈ m.destroyed ∨ ∃ a b, m.cells a = some (n, b)

theorem once_empty : (({} : ObjectMemory α β)).Once where
  live := by
    intro a n b h
    cases h
  apart := by
    intro a a' n b b' h
    cases h
  nodup := List.nodup_nil
  bounded := fun _ hmem => absurd hmem List.not_mem_nil
  kept := fun n hn => absurd hn (Nat.not_lt_zero n)

variable [DecidableEq α]

theorem Once.construct (hm : m.Once) (hcell : m.cells a = none) (b : β) :
    ({ m with
      cells := Function.update m.cells a (some (m.made, b))
      made := m.made + 1 } : ObjectMemory α β).Once where
  live := by
    intro a' n b' h
    by_cases ha : a' = a
    · subst ha
      obtain ⟨rfl, -⟩ := Prod.mk.inj (Function.eq_of_update_self h)
      exact ⟨Nat.lt_succ_self _, fun hmem => Nat.lt_irrefl _ (hm.bounded _ hmem)⟩
    · obtain ⟨hn, hnot⟩ := hm.live a' n b' ((Function.update_of_ne ha _ _).symm.trans h)
      exact ⟨Nat.lt_succ_of_lt hn, hnot⟩
  apart := by
    intro a₁ a₂ n b₁ b₂ h₁ h₂
    have hnew : ∀ {a' b'}, a' ≠ a → Function.update m.cells a (some (m.made, b)) a' =
        some (n, b') → n < m.made := fun ha h =>
      (hm.live _ n _ ((Function.update_of_ne ha _ _).symm.trans h)).1
    have hself : ∀ {b'}, Function.update m.cells a (some (m.made, b)) a = some (n, b') →
        n = m.made := fun h => (Prod.mk.inj (Function.eq_of_update_self h)).1.symm
    by_cases ha₁ : a₁ = a
    · by_cases ha₂ : a₂ = a
      · exact ha₁.trans ha₂.symm
      · subst ha₁
        exact absurd (hself h₁) (Nat.ne_of_lt (hnew ha₂ h₂))
    · by_cases ha₂ : a₂ = a
      · subst ha₂
        exact absurd (hself h₂) (Nat.ne_of_lt (hnew ha₁ h₁))
      · exact hm.apart a₁ a₂ n b₁ b₂ ((Function.update_of_ne ha₁ _ _).symm.trans h₁)
          ((Function.update_of_ne ha₂ _ _).symm.trans h₂)
  nodup := hm.nodup
  bounded := fun n hmem => Nat.lt_succ_of_lt (hm.bounded n hmem)
  kept := by
    intro n hn
    rcases Nat.lt_succ_iff_lt_or_eq.mp hn with hn | rfl
    · rcases hm.kept n hn with hmem | ⟨a', b', h⟩
      · exact .inl hmem
      · have ha : a' ≠ a := by
          rintro rfl
          cases hcell.symm.trans h
        exact .inr ⟨a', b', (Function.update_of_ne ha _ _).trans h⟩
    · exact .inr ⟨a, b, Function.update_self ..⟩

theorem Once.destroy (hm : m.Once) (hcell : m.cells a = some (n, b)) :
    ({ m with
      cells := Function.update m.cells a none
      destroyed := m.destroyed ++ [n] } : ObjectMemory α β).Once where
  live := by
    intro a' n' b' h
    have ha := Function.ne_of_update_none h
    have hold := (Function.update_of_ne ha _ _).symm.trans h
    obtain ⟨hn, hnot⟩ := hm.live a' n' b' hold
    refine ⟨hn, fun hmem => ?_⟩
    rcases List.mem_append.mp hmem with hmem | hmem
    · exact hnot hmem
    · obtain rfl := List.mem_singleton.mp hmem
      exact ha (hm.apart a' a n' b' b hold hcell)
  apart := by
    intro a₁ a₂ n' b₁ b₂ h₁ h₂
    have ha₁ := Function.ne_of_update_none h₁
    have ha₂ := Function.ne_of_update_none h₂
    exact hm.apart a₁ a₂ n' b₁ b₂ ((Function.update_of_ne ha₁ _ _).symm.trans h₁)
      ((Function.update_of_ne ha₂ _ _).symm.trans h₂)
  nodup := by
    refine List.nodup_append.mpr ⟨hm.nodup, List.nodup_singleton n, ?_⟩
    rintro k hk _ hmem rfl
    obtain rfl := List.mem_singleton.mp hmem
    exact (hm.live a k b hcell).2 hk
  bounded := by
    intro k hmem
    rcases List.mem_append.mp hmem with hmem | hmem
    · exact hm.bounded k hmem
    · rw [List.mem_singleton.mp hmem]
      exact (hm.live a n b hcell).1
  kept := by
    intro k hk
    rcases hm.kept k hk with hmem | ⟨a', b', h⟩
    · exact .inl (List.mem_append_left _ hmem)
    · by_cases ha : a' = a
      · subst ha
        obtain ⟨rfl, -⟩ := Prod.mk.inj (Option.some.inj (hcell.symm.trans h))
        exact .inl (List.mem_append_right _ (List.mem_singleton_self _))
      · exact .inr ⟨a', b', (Function.update_of_ne ha _ _).trans h⟩

/-- Writing to an object leaves it the same object. -/
theorem Once.write (hm : m.Once) (hcell : m.cells a = some (n, b)) (new : β) :
    ({ m with cells := Function.update m.cells a (some (n, new)) } :
      ObjectMemory α β).Once := by
  have hold : ∀ {a' k b'}, Function.update m.cells a (some (n, new)) a' = some (k, b') →
      ∃ old, m.cells a' = some (k, old) := by
    intro a' k b' h
    by_cases ha : a' = a
    · subst ha
      obtain ⟨rfl, -⟩ := Prod.mk.inj (Function.eq_of_update_self h)
      exact ⟨b, hcell⟩
    · exact ⟨b', (Function.update_of_ne ha _ _).symm.trans h⟩
  refine ⟨fun a' k b' h => ?_, fun a₁ a₂ k b₁ b₂ h₁ h₂ => ?_, hm.nodup, hm.bounded,
    fun k hk => ?_⟩
  · obtain ⟨old, h⟩ := hold h
    exact hm.live a' k old h
  · obtain ⟨_, h₁⟩ := hold h₁
    obtain ⟨_, h₂⟩ := hold h₂
    exact hm.apart a₁ a₂ k _ _ h₁ h₂
  · rcases hm.kept k hk with hmem | ⟨a', b', h⟩
    · exact .inl hmem
    · by_cases ha : a' = a
      · subst ha
        obtain ⟨rfl, -⟩ := Prod.mk.inj (Option.some.inj (hcell.symm.trans h))
        exact .inr ⟨a', new, Function.update_self ..⟩
      · exact .inr ⟨a', b', (Function.update_of_ne ha _ _).trans h⟩

/-! ### The operations -/

theorem Once.construct_spec (hm : m.Once) (hcell : m.cells a = none) (b : β) :
    ∃ m', m.construct a b = some m' ∧ m'.Once ∧
      m'.cells = Function.update m.cells a (some (m.made, b)) := by
  refine ⟨_, ?_, hm.construct hcell b, rfl⟩
  rw [ObjectMemory.construct, hcell]

theorem Once.destroy_spec (hm : m.Once) (hcell : m.cells a = some (n, b)) :
    ∃ m', m.destroy a = some m' ∧ m'.Once ∧ m'.cells = Function.update m.cells a none := by
  refine ⟨_, ?_, hm.destroy hcell, rfl⟩
  rw [ObjectMemory.destroy, hcell]

theorem Once.write_spec (hm : m.Once) (hcell : m.cells a = some (n, b)) (new : β) :
    ∃ m', m.write a new = some m' ∧ m'.Once ∧
      m'.cells = Function.update m.cells a (some (n, new)) := by
  refine ⟨_, ?_, hm.write hcell new, rfl⟩
  rw [ObjectMemory.write, hcell]

end ObjectMemory
