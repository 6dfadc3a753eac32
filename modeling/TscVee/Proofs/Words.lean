import TscVee.Instructions
import TscVee.Lib.Limbs

/-!
# `TscVee.Proofs.Words`: the 256-bit operations on numbers

What the operations on `Uint128` and `Uint256` do to the numbers that the words stand for:
comparison, sum, difference, bitwise or, shifts and the number of bits. `expLoop_eq` follows: the
loop of the exponentiation ends.
-/

set_option autoImplicit false

namespace TscVee

open Lib

/-- The number a word stands for. -/
def Uint128.toNat (x : Uint128) : Nat := x.upper.toNat * 2 ^ 64 + x.lower.toNat

/-- A pair of limbs is a number of 128 bits. The bound is what `omega` needs to see that a limb does
not reach into the next one. -/
theorem Uint128.toNat_lt (x : Uint128) : x.toNat < 2 ^ 128 :=
  limbs_lt_sq x.upper.isLt x.lower.isLt

/-- A word by its two halves, each of which is a number of two limbs. Most of what follows is proved
for the halves first. -/
theorem Uint256.toNat_eq (x : Uint256) : x.toNat = x.upper.toNat * 2 ^ 128 + x.lower.toNat := by
  unfold Uint256.toNat Uint128.toNat
  omega

/-- The same for a word that is written as a pair. `rw` finds its left side in the results of the
operations, which are pairs. -/
theorem Uint256.toNat_mk (a b : Uint128) :
    (Uint256.mk a b).toNat = a.toNat * 2 ^ 128 + b.toNat := by
  simp only [Uint256.toNat, Uint128.toNat]
  omega

/-- A half that is written as a pair of limbs. -/
theorem Uint128.toNat_mk (a b : U64) : (Uint128.mk a b).toNat = a.toNat * 2 ^ 64 + b.toNat := rfl

/-- The half without a bit, which the operations leave where nothing reaches. -/
theorem Uint128.toNat_zero : Uint128.toNat ⟨0, 0⟩ = 0 := rfl

/-- A word is a number of 256 bits. -/
theorem Uint256.toNat_lt (x : Uint256) : x.toNat < 2 ^ 256 := by
  rw [toNat_eq]
  exact limbs_lt_sq x.upper.toNat_lt x.lower.toNat_lt

/-- A limb, made into a word, keeps its value: the three other limbs are zero. -/
theorem ofU64_toNat (x : U64) : (Uint256.ofU64 x).toNat = x.toNat := by
  show ((0 * 2 ^ 64 + 0) * 2 ^ 64 + 0) * 2 ^ 64 + x.toNat = x.toNat
  omega

/-- A number that fits in the low limb is the low limb. -/
theorem low_eq_toNat {x : Uint256} (h : x.toNat < 2 ^ 64) : x.low = x.toNat := by
  have h0 := x.lower.lower.isLt
  unfold Uint256.low Uint256.toNat at *
  omega

/-- The low limb, which `size_t` and `uint64_t` casts take, is at most the word. It is the word
itself only below `2 ^ 64`. -/
theorem low_le (x : Uint256) : x.low ≤ x.toNat := by
  unfold Uint256.low Uint256.toNat
  omega

/-- Two words of one value are the same four limbs. So a word may be compared, copied and pushed by
its value. -/
theorem Uint256.toNat_inj {x y : Uint256} (h : x.toNat = y.toNat) : x = y := by
  have hlimbs : ∀ a b : Uint128, a.toNat = b.toNat → a = b := by
    rintro ⟨au, al⟩ ⟨bu, bl⟩ hab
    obtain ⟨h1, h2⟩ := (limbs_eq al.isLt bl.isLt).1 hab
    exact congrArg₂ Uint128.mk (BitVec.eq_of_toNat_eq h1) (BitVec.eq_of_toNat_eq h2)
  obtain ⟨xu, xl⟩ := x
  obtain ⟨yu, yl⟩ := y
  rw [toNat_mk, toNat_mk] at h
  obtain ⟨h1, h2⟩ := (limbs_eq xl.toNat_lt yl.toNat_lt).1 h
  rw [hlimbs _ _ h1, hlimbs _ _ h2]

/-- A number in the range of `int` is not changed by the conversion. -/
theorem toInt32_eq {x : Int} (h : -2 ^ 31 ≤ x) (h' : x < 2 ^ 31) : toInt32 x = x := by
  unfold toInt32
  rw [Int.bmod_eq_of_le] <;> omega

/-! ### Comparison -/

/-- `equal128` compares the limbs, and so the values. -/
theorem equal128_iff (a b : Uint128) : equal128 a b = true ↔ a.toNat = b.toNat := by
  unfold equal128 Uint128.toNat
  rw [limbs_eq a.lower.isLt b.lower.isLt]
  simp [← BitVec.toNat_inj]

/-- `gt128` compares the low limbs where the upper ones are equal. -/
theorem gt128_iff (a b : Uint128) : gt128 a b = true ↔ b.toNat < a.toNat := by
  unfold gt128 Uint128.toNat
  rw [limbs_lt b.lower.isLt a.lower.isLt]
  split
  case isTrue h =>
    simp only [beq_iff_eq] at h
    simp [h, BitVec.lt_def]
  case isFalse h =>
    have : a.upper.toNat ≠ b.upper.toNat := by simpa [← BitVec.toNat_inj] using h
    simp only [gt_iff_lt, BitVec.lt_def, decide_eq_true_eq]
    omega

/-- `gt256` compares the low halves where the upper ones are equal, with `gt128` on each of them. -/
theorem gt256_iff (a b : Uint256) : gt256 a b = true ↔ b.toNat < a.toNat := by
  rw [a.toNat_eq, b.toNat_eq, limbs_lt b.lower.toNat_lt a.lower.toNat_lt]
  unfold gt256
  split
  case isTrue h =>
    rw [equal128_iff] at h
    simp [h, gt128_iff]
  case isFalse h =>
    rw [equal128_iff] at h
    rw [gt128_iff]
    omega

/-- `equal256` compares the halves, and so the values. -/
theorem equal256_iff (a b : Uint256) : equal256 a b = true ↔ a.toNat = b.toNat := by
  rw [a.toNat_eq, b.toNat_eq, limbs_eq a.lower.toNat_lt b.lower.toNat_lt]
  simp [equal256, equal128_iff]

/-- `gte256` is `gt256` or `equal256`. -/
theorem gte256_iff (a b : Uint256) : gte256 a b = true ↔ b.toNat ≤ a.toNat := by
  simp only [gte256, Bool.or_eq_true, gt256_iff, equal256_iff]
  omega

/-- `zero128` tests the two limbs. -/
theorem zero128_iff (a : Uint128) : zero128 a = true ↔ a.toNat = 0 := by
  simp [zero128, Uint128.toNat, ← BitVec.toNat_inj]
  omega

/-- `zero256` tests the two halves. -/
theorem zero256_iff (a : Uint256) : zero256 a = true ↔ a.toNat = 0 := by
  rw [a.toNat_eq]
  simp only [zero256, Bool.and_eq_true, zero128_iff]
  omega

/-- The comparison with a small constant looks at the low limb where the others are zero. It is the
comparison of the values as long as the constant is at most `2 ^ 64`. -/
theorem belowSmall_iff {x : Uint256} {n : Nat} (hn : n ≤ 2 ^ 64) :
    belowSmall x n = true ↔ x.toNat < n := by
  have h1 := x.upper.upper.isLt
  have h2 := x.upper.lower.isLt
  have h3 := x.lower.upper.isLt
  have h4 := x.lower.lower.isLt
  unfold belowSmall Uint256.toNat Uint256.low
  simp only [Bool.and_eq_true, beq_iff_eq, decide_eq_true_eq, ← BitVec.toNat_inj,
    BitVec.ofNat_eq_ofNat, BitVec.toNat_ofNat]
  omega

/-! ### Sums and differences -/

/-- `add128` carries from the low limb into the upper one, and drops the carry of the upper one. The
carry is the test whether the low sum is below the low summand. -/
theorem add128_toNat (a b : Uint128) : (add128 a b).toNat = (a.toNat + b.toNat) % 2 ^ 128 := by
  unfold add128 Uint128.toNat carry
  have h1 := a.lower.isLt
  have h2 := b.lower.isLt
  have h3 := a.upper.isLt
  have h4 := b.upper.isLt
  simp only [BitVec.lt_def, BitVec.toNat_add]
  have hone : (1 : U64).toNat = 1 := rfl
  have hzero : (0 : U64).toNat = 0 := rfl
  split <;> simp_all only [decide_eq_true_eq] <;> omega

/-- `minus128` borrows from the upper limb where the low difference wraps. The value `2 ^ 128` is
what the last borrow stands for. -/
theorem minus128_toNat (a b : Uint128) :
    (minus128 a b).toNat = (a.toNat + 2 ^ 128 - b.toNat) % 2 ^ 128 := by
  unfold minus128 Uint128.toNat carry
  have h1 := a.lower.isLt
  have h2 := b.lower.isLt
  have h3 := a.upper.isLt
  have h4 := b.upper.isLt
  simp only [gt_iff_lt, BitVec.lt_def, BitVec.toNat_sub]
  have hone : (1 : U64).toNat = 1 := rfl
  have hzero : (0 : U64).toNat = 0 := rfl
  split <;> simp_all only [decide_eq_true_eq] <;> omega

/-- `add256` carries from the low half into the upper one, as `add128` does between limbs, and is
the sum modulo `2 ^ 256`. -/
theorem add256_toNat (a b : Uint256) : (add256 a b).toNat = (a.toNat + b.toNat) % 2 ^ 256 := by
  have h1 := a.lower.toNat_lt
  have h2 := b.lower.toNat_lt
  have h3 := a.upper.toNat_lt
  have h4 := b.upper.toNat_lt
  have hone : Uint128.toNat ⟨0, 1⟩ = 1 := rfl
  rw [Uint256.toNat_eq, a.toNat_eq, b.toNat_eq]
  unfold add256
  simp only [gt128_iff, add128_toNat]
  split <;> simp only [add128_toNat, hone] <;> omega

/-- `minus256` borrows from the upper half, and is the difference modulo `2 ^ 256`. -/
theorem minus256_toNat (a b : Uint256) :
    (minus256 a b).toNat = (a.toNat + 2 ^ 256 - b.toNat) % 2 ^ 256 := by
  have h1 := a.lower.toNat_lt
  have h2 := b.lower.toNat_lt
  have h3 := a.upper.toNat_lt
  have h4 := b.upper.toNat_lt
  have hone : Uint128.toNat ⟨0, 1⟩ = 1 := rfl
  rw [Uint256.toNat_eq, a.toNat_eq, b.toNat_eq]
  unfold minus256
  simp only [gt128_iff, minus128_toNat]
  split <;> simp only [minus128_toNat, hone] <;> omega

/-- A difference without a borrow. -/
theorem minus256_toNat_of_le {a b : Uint256} (h : b.toNat ≤ a.toNat) :
    (minus256 a b).toNat = a.toNat - b.toNat := by
  have := a.toNat_lt
  rw [minus256_toNat]
  omega

/-- The limbs do not overlap, so that the union of the bits is taken limb by limb. -/
theorem or128_toNat (a b : Uint128) : (or128 a b).toNat = a.toNat ||| b.toNat := by
  unfold or128 Uint128.toNat
  rw [or_limbs a.lower.isLt b.lower.isLt, BitVec.toNat_or, BitVec.toNat_or]

/-- The halves do not overlap either. -/
theorem or256_toNat (a b : Uint256) : (or256 a b).toNat = a.toNat ||| b.toNat := by
  rw [a.toNat_eq, b.toNat_eq, or_limbs a.lower.toNat_lt b.lower.toNat_lt, ← or128_toNat,
    ← or128_toNat]
  exact Uint256.toNat_mk _ _

/-! ### Shifts -/

/-- `shiftl128` has a case for each of the counts 0, 64, below 64, below 128 and above, and is the
multiplication by `2 ^ v` in all of them. What leaves the upper limb is lost. -/
theorem shiftl128_toNat (x : Uint128) (v : Nat) :
    (shiftl128 x v).toNat = x.toNat * 2 ^ v % 2 ^ 128 := by
  have hsq : (2 : Nat) ^ 128 = 2 ^ 64 * 2 ^ 64 := by norm_num
  unfold shiftl128
  split
  -- The cases of the source: a count of 128 or more, of 64, of 0, below 64, and above 64.
  case isTrue h =>
    have hdvd : 2 ^ 128 ∣ x.toNat * 2 ^ v := (Nat.pow_dvd_pow 2 h).mul_left _
    rw [Nat.mod_eq_zero_of_dvd hdvd]
    rfl
  case isFalse h =>
  split
  case isTrue h64 =>
    subst h64
    rw [Uint128.toNat, hsq, Uint128.toNat, shiftLeft_high (le_refl 64), Nat.sub_self, Nat.pow_zero,
      Nat.mul_one, Nat.mod_eq_of_lt x.lower.isLt]
    simp
  split
  case isTrue h0 => rw [h0, Nat.pow_zero, Nat.mul_one, Nat.mod_eq_of_lt x.toNat_lt]
  split
  -- Below 64, the high bits of the lower half move into the upper one.
  case isTrue hlt =>
    rw [hsq, Uint128.toNat, Uint128.toNat, shiftLeft_low (by omega)]
    simp only [BitVec.toNat_add, BitVec.toNat_shiftLeft, BitVec.toNat_ushiftRight, Nat.shiftLeft_eq,
      Nat.shiftRight_eq_div_pow, Nat.mod_add_mod]
  case isFalse hge =>
    rw [hsq, Uint128.toNat, Uint128.toNat, shiftLeft_high (by omega)]
    simp [Nat.shiftLeft_eq]

/-- `shiftr128` has the same cases, and is the division by `2 ^ v`. -/
theorem shiftr128_toNat (x : Uint128) (v : Nat) : (shiftr128 x v).toNat = x.toNat / 2 ^ v := by
  unfold shiftr128
  split
  -- The same cases as for the left shift.
  case isTrue h =>
    rw [Nat.div_eq_of_lt (lt_of_lt_of_le x.toNat_lt (Nat.pow_le_pow_right (by decide) h))]
    rfl
  case isFalse h =>
  split
  case isTrue h64 =>
    subst h64
    rw [Uint128.toNat, Uint128.toNat, shiftRight_high (le_refl 64) x.lower.isLt]
    simp
  split
  case isTrue h0 => rw [h0, Nat.pow_zero, Nat.div_one]
  split
  -- Below 64, the low bits of the upper half move into the lower one.
  case isTrue hlt =>
    rw [Uint128.toNat, Uint128.toNat, shiftRight_low (by omega)]
    simp only [BitVec.toNat_add, BitVec.toNat_shiftLeft, BitVec.toNat_ushiftRight, Nat.shiftLeft_eq,
      Nat.shiftRight_eq_div_pow]
    rw [Nat.mod_eq_of_lt (shiftRight_low_lt (by omega) x.lower.isLt)]
  case isFalse hge =>
    rw [Uint128.toNat, Uint128.toNat, shiftRight_high (by omega) x.lower.isLt]
    simp [Nat.shiftRight_eq_div_pow]

/-- `shiftl256` puts together what `shiftl128` and `shiftr128` leave of the halves. It is the
multiplication by `2 ^ v` modulo `2 ^ 256`, for every count. -/
theorem shiftl256_toNat (x : Uint256) (v : Nat) :
    (shiftl256 x v).toNat = x.toNat * 2 ^ v % 2 ^ 256 := by
  have hsq : (2 : Nat) ^ 256 = 2 ^ 128 * 2 ^ 128 := by rw [← Nat.pow_add]
  unfold shiftl256
  split
  -- The cases are those of 128 bits, with halves twice as long.
  case isTrue h =>
    have hdvd : 2 ^ 256 ∣ x.toNat * 2 ^ v := (Nat.pow_dvd_pow 2 h).mul_left _
    rw [Nat.mod_eq_zero_of_dvd hdvd, Uint256.toNat_mk, Uint128.toNat_zero, Nat.zero_mul]
  case isFalse h =>
  split
  case isTrue h128 =>
    rw [h128, hsq, Uint256.toNat_mk, x.toNat_eq, shiftLeft_high (le_refl 128), Nat.sub_self,
      Nat.pow_zero, Nat.mul_one, Nat.mod_eq_of_lt x.lower.toNat_lt, Uint128.toNat_zero, Nat.add_zero]
  split
  case isTrue h0 => rw [h0, Nat.pow_zero, Nat.mul_one, Nat.mod_eq_of_lt x.toNat_lt]
  split
  case isTrue hlt =>
    rw [hsq, Uint256.toNat_mk, x.toNat_eq, shiftLeft_low (Nat.le_of_lt hlt), add128_toNat,
      shiftl128_toNat, shiftl128_toNat, shiftr128_toNat, Nat.mod_add_mod]
  -- Above 128, only the lower half is left, in the upper one.
  case isFalse hge =>
    rw [hsq, Uint256.toNat_mk, x.toNat_eq, shiftLeft_high (Nat.le_of_not_lt hge), shiftl128_toNat,
      Uint128.toNat_zero, Nat.add_zero]

/-- `shiftr256` is the division by `2 ^ v`, for every count. -/
theorem shiftr256_toNat (x : Uint256) (v : Nat) : (shiftr256 x v).toNat = x.toNat / 2 ^ v := by
  unfold shiftr256
  split
  -- The cases are those of 128 bits, with halves twice as long.
  case isTrue h =>
    rw [Nat.div_eq_of_lt (lt_of_lt_of_le x.toNat_lt (Nat.pow_le_pow_right (by decide) h)),
      Uint256.toNat_mk, Uint128.toNat_zero, Nat.zero_mul]
  case isFalse h =>
  split
  case isTrue h128 =>
    rw [h128, Uint256.toNat_mk, x.toNat_eq, shiftRight_high (le_refl 128) x.lower.toNat_lt,
      Uint128.toNat_zero, Nat.zero_mul, Nat.zero_add, Nat.sub_self, Nat.pow_zero, Nat.div_one]
  split
  case isTrue h0 => rw [h0, Nat.pow_zero, Nat.div_one]
  split
  case isTrue hlt =>
    rw [Uint256.toNat_mk, x.toNat_eq, shiftRight_low (Nat.le_of_lt hlt), add128_toNat,
      shiftl128_toNat, shiftr128_toNat, shiftr128_toNat, Nat.add_comm (x.lower.toNat / 2 ^ v),
      Nat.mod_eq_of_lt (shiftRight_low_lt (Nat.le_of_lt hlt) x.lower.toNat_lt)]
  -- Above 128, only the upper half is left, in the lower one.
  case isFalse hge =>
    rw [Uint256.toNat_mk, x.toNat_eq, shiftRight_high (Nat.le_of_not_lt hge) x.lower.toNat_lt,
      shiftr128_toNat, Uint128.toNat_zero, Nat.zero_mul, Nat.zero_add]

/-! ### The number of bits -/

/-- The loop of `bits256` on a half shifts out one bit after the other. With fuel for all of them it
adds their number to the result. -/
theorem bitsLoop128_eq (fuel : Nat) (up : Uint128) (result : Nat) (h : up.toNat.size ≤ fuel) :
    bitsLoop128 fuel up result = result + up.toNat.size := by
  induction fuel generalizing up result with
  | zero =>
      rw [bitsLoop128]
      omega
  | succ fuel ih =>
      rw [bitsLoop128]
      split
      case isTrue h0 =>
        rw [zero128_iff] at h0
        simp [h0]
      case isFalse h0 =>
        rw [zero128_iff] at h0
        have hhalf : (shiftr128 up 1).toNat = up.toNat / 2 := by
          rw [shiftr128_toNat, Nat.pow_one]
        have hsize := size_half h0
        rw [ih _ _ (by rw [hhalf]; omega), hhalf]
        omega

/-- `bits256` is the length of the number in binary: that of the upper half behind 128 bits, or that
of the low half alone. -/
theorem bits256_eq (x : Uint256) : bits256 x = x.toNat.size := by
  rw [x.toNat_eq]
  unfold bits256
  split
  case isTrue h =>
    have hne : x.upper.toNat ≠ 0 := by
      rw [Ne, ← zero128_iff]
      simpa using h
    rw [bitsLoop128_eq _ _ _ (Nat.size_le.2 x.upper.toNat_lt), size_limbs hne x.lower.toNat_lt]
  case isFalse h =>
    have hzero : x.upper.toNat = 0 := by
      rw [← zero128_iff]
      simpa using h
    rw [bitsLoop128_eq _ _ _ (Nat.size_le.2 x.lower.toNat_lt), hzero]
    simp

/-! ### The exponent -/

/-- The exponent counts down to zero, and is what is left. -/
theorem expLoop_eq (fuel : Nat) (base target exponent : Uint256) (hfuel : exponent.toNat < fuel) :
    expLoop fuel base target exponent = some .zero := by
  induction fuel generalizing target exponent with
  | zero => omega
  | succ fuel ih =>
      unfold expLoop
      split
      case isFalse hzero =>
        have heq : exponent.toNat = 0 := (zero256_iff exponent).1 (by simpa using hzero)
        have hword : exponent = .zero := Uint256.toNat_inj heq
        rw [hword]
      case isTrue hne =>
        have hpos : exponent.toNat ≠ 0 := by
          rw [Ne, ← zero256_iff]
          simpa using hne
        have hone : Uint256.one.toNat = 1 := rfl
        refine ih _ _ ?_
        rw [minus256_toNat_of_le (by omega), hone]
        omega

end TscVee
