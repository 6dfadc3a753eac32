import TscVee.Lib.Bytes
import TscVee.Proofs.Words

/-!
# `TscVee.Proofs.WordBytes`: words from and to bytes

* `readu256BE_toNat`: `readu256BE` reads the big-endian number of 32 bytes.
* `u256Byte_toNat`: byte `i` of the 32 bytes that are written for a word is its digit.
* `readu256BE_eq`: reading the bytes of a word gives the word.
-/

set_option autoImplicit false

namespace TscVee

open TscVee.Lib

/-! ### Reading -/

/-- Eight bytes are read as their number. -/
theorem readUint64BE_toNat (buffer : Nat → Byte) :
    (readUint64BE buffer).toNat = beNat buffer 8 := by
  have hlt := beNat_lt buffer
  have h0 : ((buffer 0).setWidth 64 <<< 56 : U64).toNat = beNat buffer 1 * 2 ^ 56 := by
    have := or_byte (n := 0) (k := 56) (0 : U64) (by simp) (by decide) (buffer 0)
    rw [BitVec.ofNat_eq_ofNat, BitVec.zero_or] at this
    exact this
  have h1 := or_byte (k := 48) _ h0 (by have := hlt 1; omega) (buffer 1)
  have h2 := or_byte (n := beNat buffer 2) (k := 40) _ h1 (by have := hlt 2; omega) (buffer 2)
  have h3 := or_byte (n := beNat buffer 3) (k := 32) _ h2 (by have := hlt 3; omega) (buffer 3)
  have h4 := or_byte (n := beNat buffer 4) (k := 24) _ h3 (by have := hlt 4; omega) (buffer 4)
  have h5 := or_byte (n := beNat buffer 5) (k := 16) _ h4 (by have := hlt 5; omega) (buffer 5)
  have h6 := or_byte (n := beNat buffer 6) (k := 8) _ h5 (by have := hlt 6; omega) (buffer 6)
  have h7 := or_byte (n := beNat buffer 7) (k := 0) _ h6 (by have := hlt 7; omega) (buffer 7)
  rw [BitVec.shiftLeft_zero, Nat.pow_zero, Nat.mul_one] at h7
  exact h7

/-- 16 bytes are read as their number. -/
theorem readu128BE_toNat (buffer : Nat → Byte) :
    (readu128BE buffer).toNat = beNat buffer 16 := by
  have hlow := readUint64BE_toNat fun i => buffer (8 + i)
  rw [show (16 : Nat) = 8 + 8 from rfl, beNat_add buffer 8 8, ← readUint64BE_toNat, ← hlow]
  simp only [Nat.add_comm 8]
  rfl

/-- 32 bytes are read as their number. -/
theorem readu256BE_toNat (buffer : Nat → Byte) :
    (readu256BE buffer).toNat = beNat buffer 32 := by
  have hlow := readu128BE_toNat fun i => buffer (16 + i)
  rw [show (32 : Nat) = 16 + 16 from rfl, beNat_add buffer 16 16, ← readu128BE_toNat, ← hlow,
    show (256 : Nat) ^ 16 = 2 ^ 128 by decide]
  simp only [Nat.add_comm 16]
  rw [readu256BE, Uint256.toNat_mk]

/-! ### Writing -/

/-- A digit in the low limb. -/
theorem digit_low {hi lo k : Nat} (hk : k < 8) :
    (hi * 2 ^ 64 + lo) / 256 ^ k % 256 = lo / 256 ^ k % 256 := by
  have hpow : hi * 2 ^ 64 + lo = lo + hi * 256 ^ (7 - k) * 256 * 256 ^ k := by
    rw [Nat.mul_assoc, Nat.mul_assoc, ← Nat.pow_succ', ← Nat.pow_add,
      show 7 - k + (k + 1) = 8 by omega, Nat.add_comm]
    rfl
  rw [hpow, Nat.add_mul_div_right _ _ (Nat.pow_pos (by decide)), Nat.add_mul_mod_self_right]

/-- A digit in the high limb. -/
theorem digit_high {hi lo k : Nat} (hlo : lo < 2 ^ 64) :
    (hi * 2 ^ 64 + lo) / 256 ^ (8 + k) = hi / 256 ^ k := by
  rw [Nat.pow_add, ← Nat.div_div_eq_div_mul, show (256 : Nat) ^ 8 = 2 ^ 64 by decide,
    Nat.add_comm, Nat.add_mul_div_right _ _ (by decide), Nat.div_eq_of_lt hlo, Nat.zero_add]

/-- The byte that is written after `k` shifts is digit `k`. -/
theorem shiftedByte_toNat (tmp : U64) (k : Nat) :
    (shiftedByte tmp k).toNat = tmp.toNat / 256 ^ k % 256 := by
  rw [shiftedByte, BitVec.toNat_setWidth, BitVec.toNat_ushiftRight, Nat.shiftRight_eq_div_pow,
    Nat.pow_mul]

/-- The bytes of a word are its digits. -/
theorem u256Byte_toNat (x : Uint256) {i : Nat} (hi : i < 32) :
    (u256Byte x i).toNat = x.toNat / 256 ^ (31 - i) % 256 := by
  have hx : x.toNat = ((x.upper.upper.toNat * 2 ^ 64 + x.upper.lower.toNat) * 2 ^ 64 +
      x.lower.upper.toNat) * 2 ^ 64 + x.lower.lower.toNat := by
    unfold Uint256.toNat
    omega
  have h0 := x.lower.lower.isLt
  have h1 := x.lower.upper.isLt
  have h2 := x.upper.lower.isLt
  rw [hx]
  unfold u256Byte
  split
  · rw [shiftedByte_toNat, digit_low (by omega)]
  · split
    · rw [shiftedByte_toNat, show 31 - i = 8 + (23 - i) by omega, digit_high h0,
        digit_low (by omega)]
    · split
      · rw [shiftedByte_toNat, show 31 - i = 8 + (8 + (15 - i)) by omega, digit_high h0,
          digit_high h1, digit_low (by omega)]
      · rw [shiftedByte_toNat, show 31 - i = 8 + (8 + (8 + (7 - i))) by omega, digit_high h0,
          digit_high h1, digit_high h2]

/-- The bytes of a word read back. -/
theorem readu256BE_eq {buffer : Nat → Byte} {x : Uint256}
    (h : ∀ i, i < 32 → buffer i = u256Byte x i) : readu256BE buffer = x := by
  have hlt := x.toNat_lt
  refine Uint256.toNat_inj ?_
  rw [readu256BE_toNat, beNat_digits (x := x.toNat) fun i hi => by
    rw [h i hi, u256Byte_toNat x hi], Nat.mod_eq_of_lt]
  exact hlt

end TscVee
