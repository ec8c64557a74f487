/-
Binary heaps laid out in a sequence, as the standard algorithms see them: the
parent of position `k` is `(k - 1) / 2`, and no parent is less than its child.
`push_heap` and `pop_heap` are known by what they promise of such a sequence.
-/
import Mathlib.Data.List.Sort

universe u

namespace BinaryHeap

variable {α : Type u}

/-- A comparator the algorithms accept. -/
structure StrictWeak (less : α → α → Bool) : Prop where
  asymm : ∀ a b, less a b = true → less b a = false
  cotrans : ∀ a b c, less a c = true → less a b = true ∨ less b c = true

def IsHeap (less : α → α → Bool) (l : List α) : Prop :=
  ∀ k parent child, 0 < k → l[(k - 1) / 2]? = some parent →
    l[k]? = some child → less parent child = false

theorem isHeap_nil (less : α → α → Bool) : IsHeap less [] := by
  intro k parent child _ hparent
  simp at hparent

/-- Being a heap depends on the comparator at the elements only. -/
theorem IsHeap.congr {less less' : α → α → Bool} {l : List α}
    (hl : IsHeap less l) (hless : ∀ a ∈ l, ∀ b ∈ l, less a b = less' a b) :
    IsHeap less' l := by
  intro k parent child hk hparent hchild
  rw [← hless parent (List.mem_of_getElem? hparent) child
    (List.mem_of_getElem? hchild)]
  exact hl k parent child hk hparent hchild

theorem isHeap_of_pairwise {less : α → α → Bool} {l : List α}
    (hl : l.Pairwise (fun a b => less a b = false)) : IsHeap less l := by
  intro k parent child hk hparent hchild
  obtain ⟨hi, rfl⟩ := List.getElem?_eq_some_iff.mp hparent
  obtain ⟨hj, rfl⟩ := List.getElem?_eq_some_iff.mp hchild
  exact List.pairwise_iff_getElem.mp hl _ _ hi hj (by omega)

/-- Nothing in a heap is greater than its front. -/
theorem IsHeap.head_max {less : α → α → Bool} {a : α} {l : List α}
    (hless : StrictWeak less) (hheap : IsHeap less (a :: l)) :
    ∀ b ∈ a :: l, less a b = false := by
  have hindex : ∀ (k : Nat) b, (a :: l)[k]? = some b → less a b = false := by
    intro k
    induction k using Nat.strongRecOn with
    | _ k ih =>
        intro b hb
        have hirrefl : less a a = false := by
          cases haa : less a a with
          | false => rfl
          | true => exact haa.symm.trans (hless.asymm a a haa)
        rcases Nat.eq_zero_or_pos k with rfl | hk
        · obtain rfl : a = b := by simpa using hb
          exact hirrefl
        · -- The parent is not less than `b`, and the front not less than the parent.
          obtain ⟨hlt, _⟩ := List.getElem?_eq_some_iff.mp hb
          have hparent : (a :: l)[(k - 1) / 2]? = some ((a :: l)[(k - 1) / 2]) :=
            List.getElem?_eq_getElem (by omega)
          have hfront := ih ((k - 1) / 2) (by omega) _ hparent
          have hchild := hheap k _ b hk hparent hb
          cases hab : less a b with
          | false => rfl
          | true =>
              rcases hless.cotrans a _ b hab with h | h
              · exact absurd h (by rw [hfront]; simp)
              · exact absurd h (by rw [hchild]; simp)
  intro b hb
  obtain ⟨k, hk⟩ := List.mem_iff_getElem?.mp hb
  exact hindex k b hk

/-- Implementations of `push_heap` and `pop_heap`, with what the standard says
of their results: the pushed element joins the heap, and the popped one moves
from the front to the back. -/
structure Algorithms (α : Type u) where
  pushHeap : (α → α → Bool) → List α → List α
  popHeap : (α → α → Bool) → List α → List α
  pushHeap_perm : ∀ {less : α → α → Bool} {l : List α} {a : α},
    StrictWeak less → IsHeap less l →
      (pushHeap less (l ++ [a])).Perm (l ++ [a])
  pushHeap_isHeap : ∀ {less : α → α → Bool} {l : List α} {a : α},
    StrictWeak less → IsHeap less l → IsHeap less (pushHeap less (l ++ [a]))
  popHeap_spec : ∀ {less : α → α → Bool} {a : α} {l : List α},
    StrictWeak less → IsHeap less (a :: l) →
      ∃ rest, popHeap less (a :: l) = rest ++ [a] ∧ rest.Perm l ∧
        IsHeap less rest

section Sorted

/-- Sort so that no element is less than a later one. -/
def sort (less : α → α → Bool) (l : List α) : List α :=
  l.insertionSort (fun a b => less a b = false)

theorem sort_isHeap {less : α → α → Bool} (hless : StrictWeak less)
    (l : List α) : IsHeap less (sort less l) := by
  have htotal : Std.Total (fun a b => less a b = false) := by
    constructor
    intro a b
    cases hab : less a b with
    | false => exact Or.inl rfl
    | true => exact Or.inr (hless.asymm a b hab)
  have htrans : IsTrans α (fun a b => less a b = false) := by
    constructor
    intro a b c hab hbc
    cases hac : less a c with
    | false => rfl
    | true => rcases hless.cotrans a b c hac with h | h <;> simp_all
  exact isHeap_of_pairwise (List.pairwise_insertionSort _ l)

/-- The simplest implementation keeps the heap sorted. -/
def sorted (α : Type u) : Algorithms α where
  pushHeap := sort
  popHeap less l :=
    match l with
    | [] => []
    | a :: rest => sort less rest ++ [a]
  pushHeap_perm _ _ := List.perm_insertionSort _ _
  pushHeap_isHeap hless _ := sort_isHeap hless _
  popHeap_spec {less _ l} hless _ :=
    ⟨sort less l, rfl, List.perm_insertionSort _ _, sort_isHeap hless l⟩

end Sorted

end BinaryHeap
