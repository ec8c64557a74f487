/-
Unsigned machine integers as natural numbers below a power of two, and signed
ones as integers in their range.
-/
import Mathlib.Algebra.Order.Ring.Nat

namespace FixedWidth

/-- The value of `n` in an unsigned type of `width` bits. -/
def truncate (width n : Nat) : Nat := n % 2 ^ width

/-- `++n`. -/
def incr (width n : Nat) : Nat := truncate width (n + 1)

/-- `--n`. -/
def decr (width n : Nat) : Nat := truncate width (n + (2 ^ width - 1))

/-- The value of `n` in a signed type of `width` bits. -/
def toInt (width : Nat) (n : Int) : Int := n.bmod (2 ^ width)

theorem truncate_of_lt {width n : Nat} (hn : n < 2 ^ width) :
    truncate width n = n :=
  Nat.mod_eq_of_lt hn

theorem incr_of_lt {width n : Nat} (hn : n + 1 < 2 ^ width) :
    incr width n = n + 1 :=
  truncate_of_lt hn

theorem decr_of_pos {width n : Nat} (hpos : 0 < n) (hn : n < 2 ^ width) :
    decr width n = n - 1 := by
  have hsum : n + (2 ^ width - 1) = n - 1 + 2 ^ width := by omega
  rw [decr, truncate, hsum, Nat.add_mod_right]
  exact Nat.mod_eq_of_lt (by omega)

@[simp] theorem truncate_self (width : Nat) : truncate width (2 ^ width) = 0 :=
  Nat.mod_self _

theorem incr_truncate (width n : Nat) :
    incr width (truncate width n) = truncate width (n + 1) :=
  Nat.mod_add_mod _ _ _

end FixedWidth
