import TscVee.Lib.SumTree
import TscVee.Proofs.Words

/-!
# `TscVee.Proofs.Product`: the schoolbook products of `uint256.c`

`mul128` and `mul256` cut both numbers into four parts, form the products of the parts, and collect
the halves of each product in the column of its weight. `Lib.schoolbook` says that the columns add
up to the product.

* `mul128_toNat`: `mul128` is the product modulo `2 ^ 128`.
* `mul128_exact`: no product and no column sum of `mul128` leaves its 64 bits on the way.
* `mul256_toNat`: `mul256` moves the carry of its third column by one limb too far. `middleCarry` is
  that carry, and the result is too large by `2 ^ 192 - 2 ^ 128` times the carry.
-/

set_option autoImplicit false

namespace TscVee

open Lib

/-! ### 128 bits -/

/-- The high half of a limb is its quotient by `2 ^ 32`. -/
theorem hi32_toNat (x : U64) : (hi32 x).toNat = x.toNat / 2 ^ 32 := by
  simp [hi32, Nat.shiftRight_eq_div_pow]

/-- The low half of a limb is its remainder by `2 ^ 32`. -/
theorem lo32_toNat (x : U64) : (lo32 x).toNat = x.toNat % 2 ^ 32 := by
  unfold lo32
  rw [BitVec.toNat_and]
  exact Nat.and_two_pow_sub_one_eq_mod _ 32

/-- The four parts of a number. -/
theorem Uint128.toNat_parts (x : Uint128) :
    x.toNat = (lo32 x.lower).toNat + (hi32 x.lower).toNat * 2 ^ 32 +
      (lo32 x.upper).toNat * (2 ^ 32) ^ 2 + (hi32 x.upper).toNat * (2 ^ 32) ^ 3 := by
  simp only [lo32_toNat, hi32_toNat]
  unfold Uint128.toNat
  omega

/-- The low half of a limb has 32 bits. -/
theorem lo32_lt (x : U64) : (lo32 x).toNat < 2 ^ 32 := by
  rw [lo32_toNat]
  exact Nat.mod_lt _ (by decide)

/-- The high half of a limb has 32 bits. -/
theorem hi32_lt (x : U64) : (hi32 x).toNat < 2 ^ 32 := by
  rw [hi32_toNat]
  have := x.isLt
  omega

/-- A product of 32-bit parts fits in a limb. -/
theorem mul_toNat_of_lt {a b : U64} (ha : a.toNat < 2 ^ 32) (hb : b.toNat < 2 ^ 32) :
    (a * b).toNat = a.toNat * b.toNat := by
  rw [BitVec.toNat_mul]
  exact Nat.mod_eq_of_lt (lt_of_lt_of_le (Nat.mul_lt_mul'' ha hb) (by decide))

/-- The sum of the four columns. -/
theorem mul128_columns (first second third fourth : U64) :
    (add128 ⟨0, fourth⟩ (add128 ⟨second, 0⟩
      (add128 ⟨first <<< 32, 0⟩ ⟨third >>> 32, third <<< 32⟩))).toNat =
      (fourth.toNat + third.toNat * 2 ^ 32 + second.toNat * (2 ^ 32) ^ 2 +
        first.toNat * (2 ^ 32) ^ 3) % (2 ^ 32) ^ 4 := by
  have hzero : (0 : U64).toNat = 0 := rfl
  have hthird := third.isLt
  have hfirst : (first <<< 32).toNat = first.toNat * 2 ^ 32 % 2 ^ 64 := by
    rw [BitVec.toNat_shiftLeft, Nat.shiftLeft_eq]
  have hlow : (third <<< 32).toNat = third.toNat * 2 ^ 32 % 2 ^ 64 := by
    rw [BitVec.toNat_shiftLeft, Nat.shiftLeft_eq]
  have hhigh : (third >>> 32).toNat = third.toNat / 2 ^ 32 := by
    rw [BitVec.toNat_ushiftRight, Nat.shiftRight_eq_div_pow]
  simp only [add128_toNat, Uint128.toNat_mk, hzero, hfirst, hlow, hhigh]
  omega

/-! The columns are sums of 32-bit parts, which do not overflow a limb. -/

/-- The column of `third32`, three terms without a carry out. -/
theorem toNat_thirdColumn (a b c : U64) :
    (lo32 a + hi32 b + lo32 c).toNat =
      a.toNat % 2 ^ 32 + b.toNat / 2 ^ 32 + c.toNat % 2 ^ 32 := by
  simp only [BitVec.toNat_add, lo32_toNat, hi32_toNat]
  omega

/-- The column of `second32`, five terms without a carry out. -/
theorem toNat_secondColumn (a b c d e : U64) :
    (lo32 a + hi32 b + (lo32 c + hi32 d) + lo32 e).toNat =
      a.toNat % 2 ^ 32 + b.toNat / 2 ^ 32 + c.toNat % 2 ^ 32 + d.toNat / 2 ^ 32 +
        e.toNat % 2 ^ 32 := by
  simp only [BitVec.toNat_add, lo32_toNat, hi32_toNat]
  omega

/-- The column of `first32`, seven terms without a carry out. -/
theorem toNat_firstColumn (a b c d e f g : U64) :
    (lo32 a + hi32 b + (lo32 c + hi32 d) + (lo32 e + hi32 f) + lo32 g).toNat =
      a.toNat % 2 ^ 32 + b.toNat / 2 ^ 32 + c.toNat % 2 ^ 32 + d.toNat / 2 ^ 32 +
        e.toNat % 2 ^ 32 + f.toNat / 2 ^ 32 + g.toNat % 2 ^ 32 := by
  simp only [BitVec.toNat_add, lo32_toNat, hi32_toNat]
  omega

/-- `mul128` is the product modulo `2 ^ 128`. -/
theorem mul128_toNat (x y : Uint128) : (mul128 x y).toNat = x.toNat * y.toNat % 2 ^ 128 := by
  have hpow : (2 : Nat) ^ 128 = (2 ^ 32) ^ 4 := by norm_num
  rw [x.toNat_parts, y.toNat_parts, hpow, schoolbook]
  show (add128 _ (add128 _ (add128 _ _))).toNat = _
  rw [mul128_columns, toNat_thirdColumn, toNat_secondColumn, toNat_firstColumn, lo32_toNat]
  -- The products of the parts, out of the arrays `top` and `bottom`.
  simp only [Fin.isValue, Fin.reduceSub, Matrix.cons_val, mul_toNat_of_lt, lo32_lt, hi32_lt]

/-! No step on the way to the product leaves its 64 bits. -/

/-- `top` and `bottom`: the 32-bit parts of a number, the most significant one first. -/
def parts32 (x : Uint128) (i : Nat) : U64 :=
  [hi32 x.upper, lo32 x.upper, hi32 x.lower, lo32 x.lower].getD i 0

/-- `products[i][y]`. -/
def products32 (x y : Uint128) (i j : Nat) : U64 := parts32 x (3 - i) * parts32 y j

section
variable (p : Nat → Nat → U64)

/-- The low and the high half of a product, as the terms of two columns. -/
def lowTerm (i j : Nat) : SumTree 64 := .term (lo32 (p i j))

/-- The high half of a product, in the column to the left. -/
def highTerm (i j : Nat) : SumTree 64 := .term (hi32 (p i j))

/-- The additions that the source makes for `third32`. -/
def thirdColumn : SumTree 64 := .add (.add (lowTerm p 0 2) (highTerm p 0 3)) (lowTerm p 1 3)

/-- The additions for `second32`. -/
def secondColumn : SumTree 64 :=
  .add (.add (.add (lowTerm p 0 1) (highTerm p 0 2)) (.add (lowTerm p 1 2) (highTerm p 1 3)))
    (lowTerm p 2 3)

/-- The additions for `first32`. -/
def firstColumn : SumTree 64 :=
  .add (.add (.add (.add (lowTerm p 0 0) (highTerm p 0 1))
    (.add (lowTerm p 1 1) (highTerm p 1 2))) (.add (lowTerm p 2 2) (highTerm p 2 3)))
    (lowTerm p 3 3)

/-- A low half has 32 bits. -/
theorem lowTerm_bounded (i j : Nat) : (lowTerm p i j).Bounded (2 ^ 32) := (lo32_lt _).le

/-- A high half has 32 bits. -/
theorem highTerm_bounded (i j : Nat) : (highTerm p i j).Bounded (2 ^ 32) := (hi32_lt _).le

/-- Three, five and seven terms of 32 bits fit in 64 bits. -/
theorem columns_fit : (thirdColumn p).Fits ∧ (secondColumn p).Fits ∧ (firstColumn p).Fits := by
  have hlow := lowTerm_bounded p
  have hhigh := highTerm_bounded p
  have hthird : (thirdColumn p).count * 2 ^ 32 < 2 ^ 64 := (by decide : 3 * 2 ^ 32 < 2 ^ 64)
  have hsecond : (secondColumn p).count * 2 ^ 32 < 2 ^ 64 := (by decide : 5 * 2 ^ 32 < 2 ^ 64)
  have hfirst : (firstColumn p).count * 2 ^ 32 < 2 ^ 64 := (by decide : 7 * 2 ^ 32 < 2 ^ 64)
  refine ⟨?_, ?_, ?_⟩
  · exact SumTree.fits_of_bounded ⟨⟨hlow 0 2, hhigh 0 3⟩, hlow 1 3⟩ hthird
  · exact SumTree.fits_of_bounded ⟨⟨⟨hlow 0 1, hhigh 0 2⟩, hlow 1 2, hhigh 1 3⟩, hlow 2 3⟩ hsecond
  · exact SumTree.fits_of_bounded
      ⟨⟨⟨⟨hlow 0 0, hhigh 0 1⟩, hlow 1 1, hhigh 1 2⟩, hlow 2 2, hhigh 2 3⟩, hlow 3 3⟩ hfirst

end

/-- The parts of a number have 32 bits, so that their products do not wrap. -/
theorem parts32_lt (x : Uint128) (i : Nat) : (parts32 x i).toNat < 2 ^ 32 := by
  obtain rfl | rfl | rfl | rfl | hi : i = 0 ∨ i = 1 ∨ i = 2 ∨ i = 3 ∨ 4 ≤ i := by omega
  · exact hi32_lt _
  · exact lo32_lt _
  · exact hi32_lt _
  · exact lo32_lt _
  · rw [parts32, List.getD_eq_getElem?_getD, List.getElem?_eq_none hi]
    decide

/-- The columns are the accumulators of `mul128`. -/
theorem mul128_eq_columns (x y : Uint128) :
    mul128 x y =
      add128 ⟨0, lo32 (products32 x y 0 3)⟩ (add128 ⟨(secondColumn (products32 x y)).value, 0⟩
        (add128 ⟨(firstColumn (products32 x y)).value <<< 32, 0⟩
          ⟨(thirdColumn (products32 x y)).value >>> 32,
            (thirdColumn (products32 x y)).value <<< 32⟩)) := rfl

/-! ### 256 bits -/

/-- The four limbs of a number. -/
theorem Uint256.toNat_limbs (x : Uint256) :
    x.toNat = x.lower.lower.toNat + x.lower.upper.toNat * 2 ^ 64 +
      x.upper.lower.toNat * (2 ^ 64) ^ 2 + x.upper.upper.toNat * (2 ^ 64) ^ 3 := by
  unfold Uint256.toNat
  ring

/-- The low limb is the remainder by `2 ^ 64`. -/
theorem lowLimb_toNat (x : Uint128) : (lowLimb x).toNat = x.toNat % 2 ^ 64 := by
  have := x.lower.isLt
  unfold lowLimb
  rw [Uint128.toNat_mk, Uint128.toNat]
  simp only [BitVec.ofNat_eq_ofNat, BitVec.toNat_ofNat]
  omega

/-- The high limb is the quotient by `2 ^ 64`. -/
theorem highLimb_toNat (x : Uint128) : (highLimb x).toNat = x.toNat / 2 ^ 64 := by
  have := x.lower.isLt
  unfold highLimb
  rw [Uint128.toNat_mk, Uint128.toNat]
  simp only [BitVec.ofNat_eq_ofNat, BitVec.toNat_ofNat]
  omega

/-- The product of two limbs, each in a `uint128_t`, fits. -/
theorem mul128_limbs (a b : U64) : (mul128 ⟨0, a⟩ ⟨0, b⟩).toNat = a.toNat * b.toNat := by
  have hzero : (0 : U64).toNat = 0 := rfl
  rw [mul128_toNat, Uint128.toNat_mk, Uint128.toNat_mk, hzero, Nat.zero_mul, Nat.zero_add,
    Nat.zero_add]
  exact Nat.mod_eq_of_lt (lt_of_lt_of_le (Nat.mul_lt_mul'' a.isLt b.isLt) (by decide))

/-- `mul128` is the product modulo `2 ^ 128`. The 32-bit products and every addition of the three
column sums, which are the accumulators of `mul128`, are exact in 64 bits. The product of two limbs
is exact. -/
theorem mul128_exact (x y : Uint128) :
    (mul128 x y).toNat = x.toNat * y.toNat % 2 ^ 128 ∧
    (∀ i j, (products32 x y i j).toNat = (parts32 x (3 - i)).toNat * (parts32 y j).toNat) ∧
    (thirdColumn (products32 x y)).Fits ∧ (secondColumn (products32 x y)).Fits ∧
    (firstColumn (products32 x y)).Fits ∧
    mul128 x y =
      add128 ⟨0, lo32 (products32 x y 0 3)⟩ (add128 ⟨(secondColumn (products32 x y)).value, 0⟩
        (add128 ⟨(firstColumn (products32 x y)).value <<< 32, 0⟩
          ⟨(thirdColumn (products32 x y)).value >>> 32,
            (thirdColumn (products32 x y)).value <<< 32⟩)) ∧
    ∀ a b : U64, (mul128 ⟨0, a⟩ ⟨0, b⟩).toNat = a.toNat * b.toNat := by
  obtain ⟨hthird, hsecond, hfirst⟩ := columns_fit (products32 x y)
  refine ⟨mul128_toNat x y, fun i j => ?_, hthird, hsecond, hfirst, mul128_eq_columns x y,
    mul128_limbs⟩
  exact mul_toNat_of_lt (parts32_lt _ _) (parts32_lt _ _)

/-- The sum of the four columns. The upper limb of the third column belongs to the limb above it,
and lands one limb higher. -/
theorem mul256_columns (first second third fourth : Uint128) :
    (add256 ⟨⟨0, 0⟩, fourth⟩ (add256 ⟨second, ⟨0, 0⟩⟩
      (add256 ⟨shiftl128 first 64, ⟨0, 0⟩⟩ ⟨⟨third.upper, 0⟩, shiftl128 third 64⟩))).toNat =
      (fourth.toNat + third.toNat * 2 ^ 64 + second.toNat * (2 ^ 64) ^ 2 +
        first.toNat * (2 ^ 64) ^ 3 + third.toNat / 2 ^ 64 * (2 ^ 192 - 2 ^ 128)) %
        (2 ^ 64) ^ 4 := by
  have hzero : (0 : U64).toNat = 0 := rfl
  have hupper : third.upper.toNat = third.toNat / 2 ^ 64 := by
    have := third.lower.isLt
    rw [Uint128.toNat]
    omega
  have hthird := third.toNat_lt
  simp only [add256_toNat, Uint256.toNat_mk, shiftl128_toNat, Uint128.toNat_mk,
    hzero, hupper]
  omega

/-! The columns are sums of 64-bit parts, which do not overflow a `uint128_t`. -/

/-- The column of `third64`, with 128 bits for three terms. -/
theorem toNat_thirdColumn64 (a b c : Uint128) :
    (add128 (lowLimb c) (add128 (lowLimb a) (highLimb b))).toNat =
      a.toNat % 2 ^ 64 + b.toNat / 2 ^ 64 + c.toNat % 2 ^ 64 := by
  have := b.toNat_lt
  simp only [add128_toNat, lowLimb_toNat, highLimb_toNat]
  omega

/-- The column of `second64`, with 128 bits for five terms. -/
theorem toNat_secondColumn64 (a b c d e : Uint128) :
    (add128 (lowLimb e) (add128 (highLimb d) (add128 (lowLimb c)
      (add128 (lowLimb a) (highLimb b))))).toNat =
      a.toNat % 2 ^ 64 + b.toNat / 2 ^ 64 + c.toNat % 2 ^ 64 + d.toNat / 2 ^ 64 +
        e.toNat % 2 ^ 64 := by
  have := b.toNat_lt
  have := d.toNat_lt
  simp only [add128_toNat, lowLimb_toNat, highLimb_toNat]
  omega

/-- The column of `first64`, with 128 bits for seven terms. -/
theorem toNat_firstColumn64 (a b c d e f g : Uint128) :
    (add128 (lowLimb g) (add128 (highLimb f) (add128 (lowLimb e) (add128 (highLimb d)
      (add128 (lowLimb c) (add128 (lowLimb a) (highLimb b))))))).toNat =
      a.toNat % 2 ^ 64 + b.toNat / 2 ^ 64 + c.toNat % 2 ^ 64 + d.toNat / 2 ^ 64 +
        e.toNat % 2 ^ 64 + f.toNat / 2 ^ 64 + g.toNat % 2 ^ 64 := by
  have := b.toNat_lt
  have := d.toNat_lt
  have := f.toNat_lt
  simp only [add128_toNat, lowLimb_toNat, highLimb_toNat]
  omega

/-- The carry of the column above the lowest limb, of three 64-bit terms. -/
def middleCarry (x y : Uint256) : Nat :=
  (x.lower.lower.toNat * y.lower.upper.toNat % 2 ^ 64 +
    x.lower.lower.toNat * y.lower.lower.toNat / 2 ^ 64 +
    x.lower.upper.toNat * y.lower.lower.toNat % 2 ^ 64) / 2 ^ 64

/-- Three terms of 64 bits carry at most 2. -/
theorem middleCarry_lt (x y : Uint256) : middleCarry x y < 3 := by
  have hlt : x.lower.lower.toNat * y.lower.lower.toNat < 2 ^ 64 * 2 ^ 64 :=
    Nat.mul_lt_mul'' x.lower.lower.isLt y.lower.lower.isLt
  unfold middleCarry
  omega

/-- `mul256` is the product modulo `2 ^ 256`, but for the carry of the third column. -/
theorem mul256_toNat (x y : Uint256) :
    (mul256 x y).toNat =
      (x.toNat * y.toNat + middleCarry x y * (2 ^ 192 - 2 ^ 128)) % 2 ^ 256 := by
  have hpow : (2 : Nat) ^ 256 = (2 ^ 64) ^ 4 := by norm_num
  rw [x.toNat_limbs, y.toNat_limbs, hpow, Nat.add_mod, schoolbook, ← Nat.add_mod]
  show (add256 _ (add256 _ (add256 _ ⟨⟨_, 0⟩, _⟩))).toNat = _
  rw [mul256_columns, toNat_thirdColumn64, toNat_secondColumn64, toNat_firstColumn64, lowLimb_toNat]
  -- The products of the limbs, out of the arrays `top` and `bottom`.
  simp only [Fin.isValue, Fin.reduceSub, Matrix.cons_val, lowLimb, highLimb, mul128_limbs,
    middleCarry]

end TscVee
