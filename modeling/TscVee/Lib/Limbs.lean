import Mathlib.Algebra.Order.Ring.Int
import Mathlib.Data.Nat.Size
import Mathlib.Tactic.Ring

/-!
# `TscVee.Lib.Limbs`: numbers of two limbs

A number below `B * B`, for a base `B = 2 ^ n`, is `hi * B + lo` for two limbs below `B`. The
operations on the number in terms of its limbs:

* `limbs_lt`, `limbs_eq`: the order is the lexicographic one.
* `shiftLeft_low`, `shiftLeft_high`, `shiftRight_low`, `shiftRight_high`: shifts by less than one
  limb, and by one limb or more.
* `size_half`, `size_limbs`: the number of bits of a half, and of a number of two limbs.
* `or_limbs`: the bitwise or works limb by limb.

A product of numbers of four limbs is the sum of the products of their limbs. `schoolbook` collects
the two halves of each of them in the column of its weight.
-/

set_option autoImplicit false

namespace TscVee.Lib

/-- Two limbs make a number below the square of the base. -/
theorem limbs_lt_sq {B hi lo : Nat} (hhi : hi < B) (hlo : lo < B) : hi * B + lo < B * B := by
  have : (hi + 1) * B ≤ B * B := Nat.mul_le_mul_right B hhi
  rw [Nat.add_mul] at this
  omega

/-- The order is the lexicographic one. -/
theorem limbs_lt {B a b c d : Nat} (hb : b < B) (hd : d < B) :
    a * B + b < c * B + d ↔ a < c ∨ (a = c ∧ b < d) := by
  rcases Nat.lt_trichotomy a c with h | rfl | h
  · have : (a + 1) * B ≤ c * B := Nat.mul_le_mul_right B h
    rw [Nat.add_mul] at this
    omega
  · omega
  · have : (c + 1) * B ≤ a * B := Nat.mul_le_mul_right B h
    rw [Nat.add_mul] at this
    omega

/-- Two limbs are determined by the number they make. -/
theorem limbs_eq {B a b c d : Nat} (hb : b < B) (hd : d < B) :
    a * B + b = c * B + d ↔ a = c ∧ b = d := by
  have h1 := limbs_lt (a := a) (c := c) hb hd
  have h2 := limbs_lt (a := c) (c := a) hd hb
  omega

/-- Reduction of a sum of limbs of any size. -/
theorem limbs_mod {B a b : Nat} (hb : b < B) : (a * B + b) % (B * B) = a % B * B + b := by
  have hB : 0 < B := by omega
  have h : a * B + b = a % B * B + b + B * B * (a / B) := by
    have := Nat.mod_add_div a B
    calc a * B + b = (a % B + B * (a / B)) * B + b := by rw [this]
      _ = _ := by ring
  rw [h, Nat.add_mul_mod_self_left, Nat.mod_eq_of_lt (limbs_lt_sq (Nat.mod_lt a hB) hb)]

/-- A shift to the left by at most one limb. -/
theorem shiftLeft_low {n v hi lo : Nat} (hv : v ≤ n) :
    (hi * 2 ^ n + lo) * 2 ^ v % (2 ^ n * 2 ^ n) =
      (hi * 2 ^ v + lo / 2 ^ (n - v)) % 2 ^ n * 2 ^ n + lo * 2 ^ v % 2 ^ n := by
  have hpow : 2 ^ n = 2 ^ (n - v) * 2 ^ v := by rw [← Nat.pow_add, Nat.sub_add_cancel hv]
  have hcarry : lo * 2 ^ v / 2 ^ n = lo / 2 ^ (n - v) := by
    rw [hpow, Nat.mul_div_mul_right _ _ (Nat.two_pow_pos v)]
  have hsplit : (hi * 2 ^ n + lo) * 2 ^ v =
      (hi * 2 ^ v + lo / 2 ^ (n - v)) * 2 ^ n + lo * 2 ^ v % 2 ^ n := by
    have := Nat.mod_add_div (lo * 2 ^ v) (2 ^ n)
    rw [hcarry] at this
    calc (hi * 2 ^ n + lo) * 2 ^ v = hi * 2 ^ v * 2 ^ n + lo * 2 ^ v := by ring
      _ = hi * 2 ^ v * 2 ^ n + (lo * 2 ^ v % 2 ^ n + 2 ^ n * (lo / 2 ^ (n - v))) := by rw [this]
      _ = _ := by ring
  rw [hsplit, limbs_mod (Nat.mod_lt _ (Nat.two_pow_pos n))]

/-- A shift to the left by one limb or more. -/
theorem shiftLeft_high {n v hi lo : Nat} (hv : n ≤ v) :
    (hi * 2 ^ n + lo) * 2 ^ v % (2 ^ n * 2 ^ n) = lo * 2 ^ (v - n) % 2 ^ n * 2 ^ n := by
  have hpow : 2 ^ v = 2 ^ (v - n) * 2 ^ n := by rw [← Nat.pow_add, Nat.sub_add_cancel hv]
  have hsplit : (hi * 2 ^ n + lo) * 2 ^ v =
      lo * 2 ^ (v - n) * 2 ^ n + 2 ^ n * 2 ^ n * (hi * 2 ^ (v - n)) := by
    rw [hpow]
    ring
  rw [hsplit, Nat.add_mul_mod_self_left, Nat.mul_mod_mul_right]

/-- A shift to the right by at most one limb. -/
theorem shiftRight_low {n v hi lo : Nat} (hv : v ≤ n) :
    (hi * 2 ^ n + lo) / 2 ^ v =
      hi / 2 ^ v * 2 ^ n + (hi * 2 ^ (n - v) % 2 ^ n + lo / 2 ^ v) := by
  have hpow : 2 ^ n = 2 ^ (n - v) * 2 ^ v := by rw [← Nat.pow_add, Nat.sub_add_cancel hv]
  have hlow : hi * 2 ^ (n - v) % 2 ^ n = hi % 2 ^ v * 2 ^ (n - v) := by
    rw [hpow, Nat.mul_comm (2 ^ (n - v)), Nat.mul_mod_mul_right]
  have hsplit : hi * 2 ^ n + lo =
      lo + 2 ^ v * (hi / 2 ^ v * 2 ^ n + hi % 2 ^ v * 2 ^ (n - v)) := by
    have := Nat.mod_add_div hi (2 ^ v)
    calc hi * 2 ^ n + lo = (hi % 2 ^ v + 2 ^ v * (hi / 2 ^ v)) * 2 ^ n + lo := by rw [this]
      _ = lo + 2 ^ v * (hi / 2 ^ v * 2 ^ n) + hi % 2 ^ v * (2 ^ (n - v) * 2 ^ v) := by
        rw [← hpow]
        ring
      _ = _ := by ring
  rw [hsplit, Nat.add_mul_div_left _ _ (Nat.two_pow_pos v), hlow]
  ring

/-- The lower limb of a shift to the right does not overflow. -/
theorem shiftRight_low_lt {n v hi lo : Nat} (hv : v ≤ n) (hlo : lo < 2 ^ n) :
    hi * 2 ^ (n - v) % 2 ^ n + lo / 2 ^ v < 2 ^ n := by
  have hpow : 2 ^ n = 2 ^ v * 2 ^ (n - v) := by rw [← Nat.pow_add, Nat.add_sub_cancel' hv]
  have hlow : hi * 2 ^ (n - v) % 2 ^ n = hi % 2 ^ v * 2 ^ (n - v) := by
    rw [hpow, Nat.mul_mod_mul_right]
  have hdiv : lo / 2 ^ v < 2 ^ (n - v) := Nat.div_lt_of_lt_mul (by rw [← hpow]; exact hlo)
  have hmul : (hi % 2 ^ v + 1) * 2 ^ (n - v) ≤ 2 ^ v * 2 ^ (n - v) :=
    Nat.mul_le_mul_right _ (Nat.mod_lt hi (Nat.two_pow_pos v))
  rw [hlow]
  rw [Nat.add_mul] at hmul
  omega

/-- A shift to the right by one limb or more. -/
theorem shiftRight_high {n v hi lo : Nat} (hv : n ≤ v) (hlo : lo < 2 ^ n) :
    (hi * 2 ^ n + lo) / 2 ^ v = hi / 2 ^ (v - n) := by
  have hpow : 2 ^ v = 2 ^ n * 2 ^ (v - n) := by rw [← Nat.pow_add, Nat.add_sub_cancel' hv]
  rw [hpow, ← Nat.div_div_eq_div_mul, Nat.add_comm, Nat.add_mul_div_right _ _ (Nat.two_pow_pos n),
    Nat.div_eq_of_lt hlo, Nat.zero_add]

/-- A half has one bit less. -/
theorem size_half {n : Nat} (hn : n ≠ 0) : Nat.size (n / 2) + 1 = Nat.size n := by
  have h := Nat.size_bit (b := n.bodd) (n := n.div2) (by rwa [Nat.bit_bodd_div2])
  rw [Nat.bit_bodd_div2, Nat.div2_val] at h
  exact h.symm

/-- The number of bits of a number of two limbs is that of the upper limb, if it is not zero. -/
theorem size_limbs {n hi lo : Nat} (hhi : hi ≠ 0) (hlo : lo < 2 ^ n) :
    (hi * 2 ^ n + lo).size = n + hi.size := by
  have hpos : 0 < hi.size := Nat.size_pos.2 (Nat.pos_of_ne_zero hhi)
  have hle : (hi * 2 ^ n + lo).size ≤ n + hi.size := by
    have hmul : (hi + 1) * 2 ^ n ≤ 2 ^ hi.size * 2 ^ n :=
      Nat.mul_le_mul_right _ (Nat.lt_size_self hi)
    rw [Nat.add_mul] at hmul
    rw [Nat.size_le, Nat.pow_add, Nat.mul_comm (2 ^ n)]
    omega
  have hge : n + (hi.size - 1) < (hi * 2 ^ n + lo).size := by
    have hlow : 2 ^ (hi.size - 1) ≤ hi := Nat.lt_size.1 (Nat.sub_lt hpos (by decide))
    rw [Nat.lt_size, Nat.pow_add, Nat.mul_comm (2 ^ n)]
    exact (Nat.mul_le_mul_right _ hlow).trans (Nat.le_add_right _ _)
  omega

/-- The bitwise or works limb by limb. -/
theorem or_limbs {n a b c d : Nat} (hb : b < 2 ^ n) (hd : d < 2 ^ n) :
    (a * 2 ^ n + b) ||| (c * 2 ^ n + d) = (a ||| c) * 2 ^ n + (b ||| d) := by
  apply Nat.eq_of_testBit_eq
  intro i
  rw [Nat.testBit_or, Nat.mul_comm a, Nat.mul_comm c, Nat.mul_comm (a ||| c),
    Nat.testBit_two_pow_mul_add _ hb, Nat.testBit_two_pow_mul_add _ hd,
    Nat.testBit_two_pow_mul_add _ (Nat.or_lt_two_pow hb hd)]
  split <;> simp only [Nat.testBit_or]

/-! ### Products of four limbs -/

/-- The low and the high half of ten numbers, collected in the columns that they belong to. What
is left is a multiple of the fourth power of the base. -/
theorem columns_eq (B p00 p01 p10 p02 p11 p20 p03 p12 p21 p30 : Nat) :
    p00 + (p01 + p10) * B + (p02 + p11 + p20) * B ^ 2 + (p03 + p12 + p21 + p30) * B ^ 3 =
      p00 % B + (p01 % B + p00 / B + p10 % B) * B +
        (p02 % B + p01 / B + p11 % B + p10 / B + p20 % B) * B ^ 2 +
        (p03 % B + p02 / B + p12 % B + p11 / B + p21 % B + p20 / B + p30 % B) * B ^ 3 +
        B ^ 4 * (p03 / B + p12 / B + p21 / B + p30 / B) := by
  calc p00 + (p01 + p10) * B + (p02 + p11 + p20) * B ^ 2 + (p03 + p12 + p21 + p30) * B ^ 3
    _ = (p00 % B + B * (p00 / B)) +
        ((p01 % B + B * (p01 / B)) + (p10 % B + B * (p10 / B))) * B +
        ((p02 % B + B * (p02 / B)) + (p11 % B + B * (p11 / B)) + (p20 % B + B * (p20 / B))) *
          B ^ 2 +
        ((p03 % B + B * (p03 / B)) + (p12 % B + B * (p12 / B)) + (p21 % B + B * (p21 / B)) +
          (p30 % B + B * (p30 / B))) * B ^ 3 := by
      simp only [Nat.mod_add_div]
    _ = _ := by ring

/-- The product of two numbers of four limbs, up to multiples of the fourth power of the base. -/
theorem schoolbook (B a0 a1 a2 a3 b0 b1 b2 b3 : Nat) :
    (a0 + a1 * B + a2 * B ^ 2 + a3 * B ^ 3) * (b0 + b1 * B + b2 * B ^ 2 + b3 * B ^ 3) % B ^ 4 =
      (a0 * b0 % B + (a0 * b1 % B + a0 * b0 / B + a1 * b0 % B) * B +
        (a0 * b2 % B + a0 * b1 / B + a1 * b1 % B + a1 * b0 / B + a2 * b0 % B) * B ^ 2 +
        (a0 * b3 % B + a0 * b2 / B + a1 * b2 % B + a1 * b1 / B + a2 * b1 % B + a2 * b0 / B +
          a3 * b0 % B) * B ^ 3) % B ^ 4 := by
  have hproduct : (a0 + a1 * B + a2 * B ^ 2 + a3 * B ^ 3) *
      (b0 + b1 * B + b2 * B ^ 2 + b3 * B ^ 3) =
      (a0 * b0 + (a0 * b1 + a1 * b0) * B + (a0 * b2 + a1 * b1 + a2 * b0) * B ^ 2 +
        (a0 * b3 + a1 * b2 + a2 * b1 + a3 * b0) * B ^ 3) +
      B ^ 4 * (a1 * b3 + a2 * b2 + a3 * b1 + (a2 * b3 + a3 * b2) * B + a3 * b3 * B ^ 2) := by
    ring
  rw [hproduct, Nat.add_mul_mod_self_left, columns_eq, Nat.add_mul_mod_self_left]

end TscVee.Lib
