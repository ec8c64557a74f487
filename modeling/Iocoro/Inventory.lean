/-
Growable tables of containers, and counting what they hold.  An update of one
entry changes the count of an item by exactly what the entry gains and loses,
so a conservation law of the whole table is an equation between naturals.
-/
import Mathlib.Data.List.Count
import Mathlib.Data.List.GetD

universe u v

namespace Inventory

section Table

variable {α : Type u}

/-- A table of at least `n` entries, the new ones being `d`. -/
def grow (table : List α) (n : Nat) (d : α) : List α :=
  table ++ List.replicate (n - table.length) d

theorem lt_length_grow (table : List α) (i : Nat) (d : α) :
    i < (grow table (i + 1) d).length := by
  simp only [grow, List.length_append, List.length_replicate]
  omega

theorem getD_grow (table : List α) (n i : Nat) (d : α) :
    (grow table n d).getD i d = table.getD i d := by
  simp only [grow, List.getD_eq_getElem?_getD]
  by_cases hi : i < table.length
  · rw [List.getElem?_append_left hi]
  · rw [List.getElem?_append_right (by omega), List.getElem?_replicate,
      List.getElem?_eq_none (l := table) (by omega)]
    split <;> rfl

theorem getD_append_default (table : List α) (d : α) (i : Nat) :
    (table ++ [d]).getD i d = table.getD i d := by
  have hgrow := getD_grow table (table.length + 1) i d
  rwa [grow, Nat.add_sub_cancel_left, List.replicate_one] at hgrow

theorem getD_set {table : List α} {i : Nat} (hi : i < table.length) (a d : α)
    (j : Nat) :
    (table.set i a).getD j d = if j = i then a else table.getD j d := by
  simp only [List.getD_eq_getElem?_getD, List.getElem?_set]
  by_cases hij : i = j
  · subst hij
    simp [hi]
  · simp [hij, Ne.symm hij]

/-- Replacing an entry changes a count by what the old and the new entry
contribute. -/
theorem countP_set {table : List α} {i : Nat} (hi : i < table.length)
    (p : α → Bool) (a d : α) :
    (table.set i a).countP p + (p (table.getD i d)).toNat =
      table.countP p + (p a).toNat := by
  induction table generalizing i with
  | nil => simp at hi
  | cons head tail ih =>
      cases i with
      | zero =>
          simp only [List.set_cons_zero, List.countP_cons, List.getD_cons_zero]
          cases p head <;> cases p a <;> simp
      | succ i =>
          have htail := ih (i := i) (by simpa using hi)
          simp only [List.set_cons_succ, List.countP_cons, List.getD_cons_succ]
          omega

theorem modify_eq_set_of_getElem? {table : List α} {i : Nat} {a : α}
    (hi : table[i]? = some a) (f : α → α) :
    table.modify i f = table.set i (f a) := by
  apply List.ext_getElem?
  intro j
  rw [List.getElem?_modify, List.getElem?_set]
  obtain ⟨hlt, rfl⟩ := List.getElem?_eq_some_iff.mp hi
  by_cases hij : i = j
  · subst hij
    simp [hlt]
  · simp [hij]

/-- An update that a projection does not see. -/
theorem map_modify_of_eq {β : Type v} {f : α → α} {g : α → β}
    (hsame : ∀ a, g (f a) = g a) (table : List α) (i : Nat) :
    (table.modify i f).map g = table.map g := by
  apply List.ext_getElem?
  intro j
  rw [List.getElem?_map, List.getElem?_modify, List.getElem?_map]
  cases table[j]? with
  | none => rfl
  | some a =>
      by_cases hij : i = j
      · simp [hij, hsame]
      · simp [hij]

theorem map_set_of_getElem? {β : Type v} {table : List α} {i : Nat} {old a : α}
    (hi : table[i]? = some old) {g : α → β} (hsame : g a = g old) :
    (table.set i a).map g = table.map g := by
  obtain ⟨hlt, rfl⟩ := List.getElem?_eq_some_iff.mp hi
  have hmap : i < (table.map g).length := by simpa using hlt
  have hself := List.set_getElem_self hmap
  rwa [List.getElem_map, ← hsame, ← List.map_set] at hself

theorem getElem?_of_map_eq {β : Type v} {table other : List α} {g : α → β}
    (hmap : other.map g = table.map g) {i : Nat} {a : α}
    (hi : other[i]? = some a) : ∃ b, table[i]? = some b ∧ g b = g a := by
  have hget : (other.map g)[i]? = (table.map g)[i]? := by rw [hmap]
  rw [List.getElem?_map, List.getElem?_map, hi, Option.map_some] at hget
  exact Option.map_eq_some_iff.mp hget.symm

/-- Replacing an entry changes how often a value occurs by what the old and the
new entry contribute. -/
theorem count_set [DecidableEq α] {table : List α} {i : Nat} {old : α}
    (hi : table[i]? = some old) (new a : α) :
    (table.set i new).count a + [old].count a = table.count a + [new].count a := by
  obtain ⟨hlt, rfl⟩ := List.getElem?_eq_some_iff.mp hi
  have hset := countP_set hlt (fun x => x == a) new table[i]
  have hold : table.getD i table[i] = table[i] := by simp [hlt]
  rw [hold] at hset
  simp only [List.count, List.countP_singleton] at hset ⊢
  cases hold' : table[i] == a <;> cases hnew : new == a <;>
    simpa only [hold', hnew, Bool.toNat_true, Bool.toNat_false, ↓reduceIte,
      Bool.false_eq_true] using hset

end Table

variable {α : Type u} {β : Type v} [DecidableEq β]

/-- How often `x` occurs in the entries of a table, each entry holding the
items `f` lists. -/
def held (f : α → List β) (table : List α) (x : β) : Nat :=
  (table.flatMap f).count x

variable (f : α → List β)

@[simp] theorem held_nil (x : β) : held f [] x = 0 := rfl

@[simp] theorem held_cons (a : α) (table : List α) (x : β) :
    held f (a :: table) x = (f a).count x + held f table x := by
  simp [held, List.count_append]

@[simp] theorem held_append (left right : List α) (x : β) :
    held f (left ++ right) x = held f left x + held f right x := by
  simp [held, List.count_append]

theorem held_eq_zero {table : List α} (hempty : ∀ a ∈ table, f a = []) (x : β) :
    held f table x = 0 := by
  rw [held, List.flatMap_eq_nil_iff.mpr hempty, List.count_nil]

theorem held_replicate_of_nil {a : α} (hempty : f a = []) (n : Nat) (x : β) :
    held f (List.replicate n a) x = 0 := by
  apply held_eq_zero
  intro b hb
  rw [List.eq_of_mem_replicate hb, hempty]

/-- Replacing an entry exchanges its items for the new ones. -/
theorem held_set {table : List α} {i : Nat} (hi : i < table.length) (a d : α)
    (x : β) :
    held f (table.set i a) x + (f (table.getD i d)).count x =
      held f table x + (f a).count x := by
  induction table generalizing i with
  | nil => simp at hi
  | cons head tail ih =>
      cases i with
      | zero => simp only [List.set_cons_zero, held_cons, List.getD_cons_zero]; omega
      | succ i =>
          have htail := ih (i := i) (by simpa using hi)
          simp only [List.set_cons_succ, held_cons, List.getD_cons_succ]
          omega

theorem held_set_of_getElem? {table : List α} {i : Nat} {old : α}
    (hold : table[i]? = some old) (a : α) (x : β) :
    held f (table.set i a) x + (f old).count x =
      held f table x + (f a).count x := by
  obtain ⟨hi, rfl⟩ := List.getElem?_eq_some_iff.mp hold
  have hset := held_set f hi a a x
  rwa [List.getD_eq_getElem _ _ hi] at hset

theorem held_pos {table : List α} {i : Nat} {a : α} {x : β}
    (hi : table[i]? = some a) (hx : x ∈ f a) : 0 < held f table x :=
  List.count_pos_iff.mpr
    (List.mem_flatMap.mpr ⟨a, List.mem_of_getElem? hi, hx⟩)

/-- An item in two entries is there twice. -/
theorem two_le_held {table : List α} {i j : Nat} {a b : α} {x : β}
    (hij : i ≠ j) (hi : table[i]? = some a) (hj : table[j]? = some b)
    (ha : x ∈ f a) (hb : x ∈ f b) : 2 ≤ held f table x := by
  induction table generalizing i j with
  | nil => simp at hi
  | cons head tail ih =>
      rw [held_cons]
      cases i with
      | zero =>
          cases j with
          | zero => exact absurd rfl hij
          | succ j =>
              obtain rfl := Option.some.inj (List.getElem?_cons_zero.symm.trans hi)
              have hhead := List.count_pos_iff.mpr ha
              have htail := held_pos f (by simpa using hj) hb
              omega
      | succ i =>
          cases j with
          | zero =>
              obtain rfl := Option.some.inj (List.getElem?_cons_zero.symm.trans hj)
              have hhead := List.count_pos_iff.mpr hb
              have htail := held_pos f (by simpa using hi) ha
              omega
          | succ j =>
              have htail := ih (i := i) (j := j) (by simpa using hij)
                (by simpa using hi) (by simpa using hj)
              omega

theorem held_grow_of_nil {d : α} (hempty : f d = []) (table : List α) (n : Nat)
    (x : β) : held f (grow table n d) x = held f table x := by
  rw [grow, held_append, held_replicate_of_nil f hempty, Nat.add_zero]

end Inventory
