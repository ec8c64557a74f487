/-
Numbers as byte strings of a given length, in either byte order.
-/
import Mathlib.Data.Nat.Basic
import Mathlib.Tactic.Ring

/-- Whether the low or the high byte comes first. -/
inductive ByteOrder where
  | little
  | big
deriving DecidableEq, Repr

namespace ByteOrder

/-- The low byte first; what does not fit is dropped. -/
def storeLow : (length number : Nat) → List UInt8
  | 0, _ => []
  | length + 1, number => UInt8.ofNat number :: storeLow length (number / 256)

def loadLow : List UInt8 → Nat
  | [] => 0
  | low :: rest => low.toNat + 256 * loadLow rest

def store (order : ByteOrder) (length number : Nat) : List UInt8 :=
  match order with
  | .little => storeLow length number
  | .big => (storeLow length number).reverse

def load (order : ByteOrder) (bytes : List UInt8) : Nat :=
  match order with
  | .little => loadLow bytes
  | .big => loadLow bytes.reverse

theorem length_storeLow (length number : Nat) :
    (storeLow length number).length = length := by
  induction length generalizing number with
  | zero => rfl
  | succ length ih => exact congrArg (· + 1) (ih _)

@[simp] theorem length_store (order : ByteOrder) (length number : Nat) :
    (order.store length number).length = length := by
  cases order with
  | little => exact length_storeLow length number
  | big => rw [store, List.length_reverse, length_storeLow]

theorem loadLow_storeLow (length number : Nat) :
    loadLow (storeLow length number) = number % 256 ^ length := by
  induction length generalizing number with
  | zero => simp [storeLow, loadLow, Nat.mod_one]
  | succ length ih =>
      have hlow : (UInt8.ofNat number).toNat = number % 256 := rfl
      rw [storeLow, loadLow, ih, hlow, Nat.pow_succ', Nat.mod_mul]

theorem storeLow_loadLow (bytes : List UInt8) :
    storeLow bytes.length (loadLow bytes) = bytes := by
  induction bytes with
  | nil => rfl
  | cons low rest ih =>
      have hlow : low.toNat < 256 := low.toNat_lt
      have hdiv : (low.toNat + 256 * loadLow rest) / 256 = loadLow rest := by omega
      have hbyte : UInt8.ofNat (low.toNat + 256 * loadLow rest) = low := by
        apply UInt8.toNat_inj.mp
        change (low.toNat + 256 * loadLow rest) % 256 = low.toNat
        omega
      rw [List.length_cons, loadLow, storeLow, hdiv, ih, hbyte]

theorem load_store (order : ByteOrder) (length number : Nat) :
    order.load (order.store length number) = number % 256 ^ length := by
  cases order with
  | little => exact loadLow_storeLow length number
  | big => rw [load, store, List.reverse_reverse, loadLow_storeLow]

theorem store_load (order : ByteOrder) (bytes : List UInt8) :
    order.store bytes.length (order.load bytes) = bytes := by
  cases order with
  | little => exact storeLow_loadLow bytes
  | big =>
      have hreverse := storeLow_loadLow bytes.reverse
      rw [List.length_reverse] at hreverse
      rw [load, store, hreverse, List.reverse_reverse]

theorem loadLow_lt (bytes : List UInt8) : loadLow bytes < 256 ^ bytes.length := by
  induction bytes with
  | nil => exact Nat.one_pos
  | cons low rest ih =>
      have hlow : low.toNat < 256 := low.toNat_lt
      rw [loadLow, List.length_cons, Nat.pow_succ']
      omega

theorem load_lt (order : ByteOrder) (bytes : List UInt8) :
    order.load bytes < 256 ^ bytes.length := by
  cases order with
  | little => exact loadLow_lt bytes
  | big =>
      rw [← List.length_reverse]
      exact loadLow_lt bytes.reverse

end ByteOrder
