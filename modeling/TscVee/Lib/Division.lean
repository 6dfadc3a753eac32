import Mathlib.Algebra.Order.Ring.Int
import Mathlib.Tactic.Ring

/-!
# `TscVee.Lib.Division`: long division in base two

The divisor is shifted to the left, and on the way back it is subtracted wherever it fits. Before
the round for the bit `j`, the quotient found so far is a multiple of `2 ^ (j + 1)` and the rest is
less than the divisor times `2 ^ (j + 1)`.

* `ShiftSubtract`: the invariant. `start` is the state before the first round, `subtract` and `skip`
  are the two ways through a round, and `result` is what a rest below the divisor means.
-/

set_option autoImplicit false

namespace TscVee.Lib

/-- The division of `x` by `y` has the quotient `q` and the rest `r` so far, and `j` bits are to be
found. -/
structure ShiftSubtract (x y j q r : Nat) : Prop where
  sum : x = q * y + r
  rest : r < y * 2 ^ j
  multiple : 2 ^ j ∣ q

namespace ShiftSubtract

variable {x y j q r : Nat}

/-- Before the first round nothing has been subtracted. -/
theorem start (h : x < y * 2 ^ j) : ShiftSubtract x y j 0 x where
  sum := by rw [Nat.zero_mul, Nat.zero_add]
  rest := h
  multiple := Nat.dvd_zero _

/-- The shifted divisor fits. -/
theorem subtract (h : ShiftSubtract x y (j + 1) q r) (hfits : y * 2 ^ j ≤ r) :
    ShiftSubtract x y j (q + 2 ^ j) (r - y * 2 ^ j) where
  sum := by
    rw [h.sum, Nat.add_mul, Nat.mul_comm (2 ^ j) y, Nat.add_assoc, Nat.add_sub_cancel' hfits]
  rest := by
    have hrest := h.rest
    rw [Nat.pow_succ, ← Nat.mul_assoc] at hrest
    omega
  multiple := Nat.dvd_add ((Nat.pow_dvd_pow 2 (Nat.le_succ j)).trans h.multiple) (Nat.dvd_refl _)

/-- The shifted divisor does not fit. -/
theorem skip (h : ShiftSubtract x y (j + 1) q r) (hfits : r < y * 2 ^ j) :
    ShiftSubtract x y j q r where
  sum := h.sum
  rest := hfits
  multiple := (Nat.pow_dvd_pow 2 (Nat.le_succ j)).trans h.multiple

/-- The remainder does not grow. -/
theorem le (h : ShiftSubtract x y j q r) : r ≤ x := by
  rw [h.sum]
  exact Nat.le_add_left _ _

/-- The new bit is not a bit of the quotient found so far. -/
theorem or_bit (h : ShiftSubtract x y (j + 1) q r) : q ||| 2 ^ j = q + 2 ^ j := by
  obtain ⟨n, hn⟩ := h.multiple
  rw [hn]
  exact (Nat.two_pow_add_eq_or_of_lt (Nat.pow_lt_pow_right (by decide) (Nat.lt_succ_self j)) n).symm

/-- Once the rest is less than the divisor, the quotient and the rest are those of the division. -/
theorem result (h : ShiftSubtract x y j q r) (hrest : r < y) : q = x / y ∧ r = x % y := by
  have hdiv := Nat.div_mod_unique (Nat.zero_lt_of_lt hrest) (a := x) (c := r) (d := q)
  have hsum : r + y * q = x := by rw [h.sum, Nat.mul_comm y, Nat.add_comm]
  obtain ⟨hq, hr⟩ := hdiv.2 ⟨hsum, hrest⟩
  exact ⟨hq.symm, hr.symm⟩

end ShiftSubtract

end TscVee.Lib
