import Mathlib.Algebra.BigOperators.Intervals
import Mathlib.Algebra.BigOperators.Ring.Finset
import Mathlib.Algebra.Order.Ring.Int
import Mathlib.Tactic.Ring

/-!
# `TscVee.Lib.Bytes`: big-endian numbers

`beNat f n` is the number whose big-endian bytes are `f 0`, ..., `f (n - 1)`.

* `beNat_eq_sum`: the positional value.
* `beNat_add`: a number of `m + n` bytes from its two parts. `beNat_zeros`: leading zeros.
* `beNat_lt`, `beNat_digit`, `beNat_digits`: the number fits in its bytes, and the bytes are its
  digits.
* `or_byte`: the step of a loop that reads the bytes into a machine word from the top.
-/

set_option autoImplicit false

namespace TscVee.Lib

/-- The number with the big-endian bytes `f 0`, ..., `f (n - 1)`. -/
def beNat (f : Nat → BitVec 8) : Nat → Nat
  | 0 => 0
  | n + 1 => beNat f n * 256 + (f n).toNat

/-- The number depends on the first `n` bytes only. -/
theorem beNat_congr {f g : Nat → BitVec 8} {n : Nat} (h : ∀ i, i < n → f i = g i) :
    beNat f n = beNat g n := by
  induction n with
  | zero => rfl
  | succ n ih => rw [beNat, beNat, ih fun i hi => h i (by omega), h n (by omega)]

/-- The positional value. -/
theorem beNat_eq_sum (f : Nat → BitVec 8) (n : Nat) :
    beNat f n = ∑ i ∈ Finset.range n, (f i).toNat * 256 ^ (n - 1 - i) := by
  induction n with
  | zero => rfl
  | succ n ih =>
      -- Every digit in front of the new one moves up by one place.
      have hshift : ∀ i ∈ Finset.range n,
          (f i).toNat * 256 ^ (n - 1 - i) * 256 = (f i).toNat * 256 ^ (n - i) := by
        intro i hi
        have hplace : n - i = n - 1 - i + 1 := by
          have := Finset.mem_range.1 hi
          omega
        rw [hplace, Nat.pow_succ, Nat.mul_assoc]
      rw [beNat, ih, Finset.sum_range_succ, Finset.sum_mul, Finset.sum_congr rfl hshift,
        Nat.add_sub_cancel, Nat.sub_self, Nat.pow_zero, Nat.mul_one]

/-- The number of two runs of bytes: the first one counts for the higher places. -/
theorem beNat_add (f : Nat → BitVec 8) (m n : Nat) :
    beNat f (m + n) = beNat f m * 256 ^ n + beNat (fun i => f (m + i)) n := by
  induction n with
  | zero => simp [beNat]
  | succ n ih =>
      rw [← Nat.add_assoc, beNat, ih, beNat]
      ring

/-- Leading zero bytes add nothing. -/
theorem beNat_zeros {f : Nat → BitVec 8} {m : Nat} (h : ∀ i, i < m → f i = 0) (n : Nat) :
    beNat f (m + n) = beNat (fun i => f (m + i)) n := by
  have hzero : beNat f m = 0 := by
    induction m with
    | zero => rfl
    | succ m ih =>
        rw [beNat, ih fun i hi => h i (by omega), h m (by omega)]
        rfl
  rw [beNat_add, hzero, Nat.zero_mul, Nat.zero_add]

/-- A number of `n` bytes. -/
theorem beNat_lt (f : Nat → BitVec 8) (n : Nat) : beNat f n < 256 ^ n := by
  induction n with
  | zero => exact Nat.one_pos
  | succ n ih =>
      have hbyte := (f n).isLt
      rw [beNat, Nat.pow_succ]
      omega

/-- Byte `i` is the digit at its place. -/
theorem beNat_digit (f : Nat → BitVec 8) {n i : Nat} (hi : i < n) :
    beNat f n / 256 ^ (n - 1 - i) % 256 = (f i).toNat := by
  have hbyte := (f i).isLt
  have hsplit := beNat_add f (i + 1) (n - 1 - i)
  have hlow := beNat_lt (fun j => f (i + 1 + j)) (n - 1 - i)
  rw [show i + 1 + (n - 1 - i) = n by omega] at hsplit
  rw [hsplit, Nat.add_comm, Nat.add_mul_div_right _ _ (Nat.pow_pos (by decide)),
    Nat.div_eq_of_lt hlow, Nat.zero_add, beNat, Nat.mul_add_mod_self_right, Nat.mod_eq_of_lt hbyte]

/-- The number with the digits of `x` is `x`, up to the bytes that do not fit. -/
theorem beNat_digits {f : Nat → BitVec 8} {n x : Nat}
    (h : ∀ i, i < n → (f i).toNat = x / 256 ^ (n - 1 - i) % 256) : beNat f n = x % 256 ^ n := by
  induction n generalizing x with
  | zero => rw [Nat.pow_zero, Nat.mod_one, beNat]
  | succ n ih =>
      have hlast : (f n).toNat = x % 256 := by
        have := h n (Nat.lt_succ_self n)
        rwa [Nat.add_sub_cancel, Nat.sub_self, Nat.pow_zero, Nat.div_one] at this
      have hrest := ih (x := x / 256) fun i hi => by
        rw [h i (by omega), Nat.div_div_eq_div_mul, ← Nat.pow_succ',
          show n + 1 - 1 - i = n - 1 - i + 1 by omega]
      rw [beNat, hrest, hlast, Nat.pow_succ', Nat.mod_mul]
      ring

/-- A byte joins the word `acc`, which holds the number `n` above the `k + 8` lowest bits. -/
theorem or_byte {w n k : Nat} (acc : BitVec w) (hacc : acc.toNat = n * 2 ^ (k + 8))
    (hn : (n + 1) * 2 ^ (k + 8) ≤ 2 ^ w) (b : BitVec 8) :
    (acc ||| b.setWidth w <<< k).toNat = (n * 256 + b.toNat) * 2 ^ k := by
  have hbyte := b.isLt
  have hpow : 2 ^ (k + 8) = 256 * 2 ^ k := by
    rw [Nat.pow_add]
    ring
  have hshift : b.toNat * 2 ^ k < 2 ^ (k + 8) := by
    rw [hpow]
    exact Nat.mul_lt_mul_of_pos_right hbyte (Nat.two_pow_pos k)
  have hword : 2 ^ (k + 8) ≤ 2 ^ w := le_trans (Nat.le_mul_of_pos_left _ (Nat.succ_pos n)) hn
  have hfits : b.toNat < 2 ^ w :=
    lt_of_le_of_lt (Nat.le_mul_of_pos_right _ (Nat.two_pow_pos k)) (lt_of_lt_of_le hshift hword)
  rw [BitVec.toNat_or, BitVec.toNat_shiftLeft, BitVec.toNat_setWidth, Nat.mod_eq_of_lt hfits,
    Nat.shiftLeft_eq, Nat.mod_eq_of_lt (lt_of_lt_of_le hshift hword), hacc, Nat.mul_comm n,
    ← Nat.two_pow_add_eq_or_of_lt hshift n, hpow]
  ring

end TscVee.Lib
