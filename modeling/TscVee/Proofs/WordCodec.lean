import TscVee.Proofs.WordBytes
import TscVee.Proofs.WordRules

/-!
# `TscVee.Proofs.WordCodec`: the encoders, the decoder and `BYTE`

`u256_to_u8_32` and `u256_to_u8_20` write a buffer from its end, one limb after the other, and
`BYTE` picks a limb and a byte of it.

* `writeLimb_apply`: the bytes that one loop of an encoder writes.
* `u256ToU8_32_eq`, `u256ToU8_20_eq`: the arrays of the model are the buffers that the loops leave.
* `byteWord_toNat`: `BYTE` selects a byte of the encoding.
* `word_codecs`: the functions agree.
-/

set_option autoImplicit false

namespace TscVee

open Lib

/-! ### The loops of the encoders -/

/-- A loop of an encoder writes the bytes of a limb downwards from `i`, and nothing else. -/
theorem writeLimb_apply {count i : Nat} (hcount : count ≤ i + 1) (tmp : U64) (data : Nat → Byte)
    (j : Nat) :
    writeLimb count i tmp data j =
      if i < j + count ∧ j ≤ i then shiftedByte tmp (i - j) else data j := by
  induction count generalizing i tmp data with
  | zero =>
      rw [writeLimb, if_neg (by omega)]
  | succ count ih =>
      -- The pass writes byte `i` and leaves the rest of the limb to the passes below it.
      by_cases hlast : count = 0
      · subst hlast
        simp only [writeLimb]
        by_cases hj : j = i
        · rw [if_pos hj, if_pos (by omega), hj, Nat.sub_self]
          rfl
        · rw [if_neg hj, if_neg (by omega)]
      · rw [writeLimb, ih (by omega)]
        by_cases hj : j = i
        · rw [if_neg (by omega), if_pos hj, if_pos (by omega), hj, Nat.sub_self]
          rfl
        · by_cases hin : i - 1 < j + count ∧ j ≤ i - 1
          · have hshift : shiftedByte (tmp >>> 8) (i - 1 - j) = shiftedByte tmp (i - j) := by
              unfold shiftedByte
              rw [← BitVec.shiftRight_add, show 8 + 8 * (i - 1 - j) = 8 * (i - j) by omega]
            rw [if_pos hin, if_pos (by omega), hshift]
          · rw [if_neg hin, if_neg hj, if_neg (by omega)]

/-- `u256_to_u8_32` writes the 32 bytes of the word, and nothing behind them. -/
theorem u256ToU8_32Into_apply (x : Uint256) (data : Nat → Byte) (i : Nat) :
    u256ToU8_32Into x data i = if i < 32 then u256Byte x i else data i := by
  unfold u256ToU8_32Into u256Byte
  simp only [writeLimb_apply (show 8 ≤ 31 + 1 by decide),
    writeLimb_apply (show 8 ≤ 23 + 1 by decide), writeLimb_apply (show 8 ≤ 15 + 1 by decide),
    writeLimb_apply (show 8 ≤ 7 + 1 by decide)]
  split_ifs <;> first | rfl | omega

/-- `u256_to_u8_20` writes the last 20 of them. -/
theorem u256ToU8_20Into_apply (x : Uint256) (data : Nat → Byte) (i : Nat) :
    u256ToU8_20Into x data i = if i < 20 then u256Byte x (i + 12) else data i := by
  unfold u256ToU8_20Into u256Byte
  simp only [writeLimb_apply (show 8 ≤ 19 + 1 by decide), writeLimb_apply (show 8 ≤ 11 + 1 by decide),
    writeLimb_apply (show 4 ≤ 3 + 1 by decide)]
  split_ifs <;> first | rfl | omega | (congr 1; omega)

/-- The arrays that the instructions use are the buffers that the loops leave. -/
theorem u256ToU8_32_eq (x : Uint256) (data : Nat → Byte) :
    u256ToU8_32 x = Vector.ofFn fun i => u256ToU8_32Into x data i := by
  unfold u256ToU8_32
  refine congrArg Vector.ofFn (funext fun i => ?_)
  rw [u256ToU8_32Into_apply, if_pos i.isLt]

/-- The loops write all of the 20 bytes. -/
theorem u256ToU8_20_eq (x : Uint256) (data : Nat → Byte) :
    u256ToU8_20 x = Vector.ofFn fun i => u256ToU8_20Into x data i := by
  unfold u256ToU8_20
  refine congrArg Vector.ofFn (funext fun i => ?_)
  rw [u256ToU8_20Into_apply, if_pos i.isLt]

/-! ### Reading -/

/-- The bytes of the number that is read. -/
theorem u256Byte_readu256BE (b : Nat → Byte) {i : Nat} (hi : i < 32) :
    u256Byte (readu256BE b) i = b i := by
  refine BitVec.eq_of_toNat_eq ?_
  rw [u256Byte_toNat _ hi, readu256BE_toNat, beNat_digit b hi]

/-! ### `BYTE` -/

/-- The byte as the place in a limb that `BYTE` computes for it. -/
theorem u256Byte_eq_index (x : Uint256) {i : Nat} (hi : i < 32) :
    u256Byte x i = shiftedByte (u256Index x ((31 - i) / 8)) ((31 - i) % 8) := by
  unfold u256Byte
  split_ifs with h23 h15 h7
  · rw [show (31 - i) / 8 = 0 by omega, show (31 - i) % 8 = 31 - i by omega]
    rfl
  · rw [show (31 - i) / 8 = 1 by omega, show (31 - i) % 8 = 23 - i by omega]
    rfl
  · rw [show (31 - i) / 8 = 2 by omega, show (31 - i) % 8 = 15 - i by omega]
    rfl
  · rw [show (31 - i) / 8 = 3 by omega, show (31 - i) % 8 = 7 - i by omega]
    rfl

/-- The mask cuts off what the conversion to a byte cuts off. -/
theorem and_ff_toNat (w : U64) (k : Nat) :
    ((w >>> (k * 8)) &&& 0xff).toNat = (shiftedByte w k).toNat := by
  rw [shiftedByte, BitVec.toNat_and, BitVec.toNat_setWidth, Nat.mul_comm k]
  exact Nat.and_two_pow_sub_one_eq_mod _ 8

/-- BYTE gives the byte at an index below 32, else 0. -/
theorem byteWord_toNat (n x : Uint256) :
    (byteWord n x).toNat = if n.toNat < 32 then (u256Byte x n.toNat).toNat else 0 := by
  unfold byteWord
  simp only [ofU64_toNat, belowSmall_iff (show 32 ≤ 2 ^ 64 by decide)]
  split
  case isTrue hn =>
    rw [low_eq_toNat (hn.trans (by decide)), Nat.mod_eq_of_lt hn, and_ff_toNat,
      u256Byte_eq_index x hn]
  case isFalse => simp

/-! ### Together -/

/-- The encoders, the decoder and `BYTE` agree on the bytes of a word, whatever the buffers hold
before. -/
theorem word_codecs :
    (∀ x data, readu256BE (u256ToU8_32Into x data) = x) ∧
    (∀ b data i, i < 32 → u256ToU8_32Into (readu256BE b) data i = b i) ∧
    (∀ b, (readu256BE b).toNat = ∑ i ∈ Finset.range 32, (b i).toNat * 256 ^ (31 - i)) ∧
    (∀ x data data' i, i < 20 → u256ToU8_20Into x data i = u256ToU8_32Into x data' (i + 12)) ∧
    (∀ s top data, StackHolds top 2 → Leaves (byte_ top) s (top - 1)
      (if (s.stackSpace top).toNat < 32 then
        (u256ToU8_32Into (s.stackSpace (top - 1)) data (s.stackSpace top).toNat).toNat
      else 0)) := by
  refine ⟨fun x data => ?_, fun b data i hi => ?_, fun b => ?_, fun x data data' i hi => ?_,
    fun s top data h => ?_⟩
  · refine readu256BE_eq fun i hi => ?_
    rw [u256ToU8_32Into_apply, if_pos hi]
  · rw [u256ToU8_32Into_apply, if_pos hi, u256Byte_readu256BE b hi]
  · rw [readu256BE_toNat, beNat_eq_sum]
  · rw [u256ToU8_20Into_apply, if_pos hi, u256ToU8_32Into_apply, if_pos (by omega)]
  · rw [byte_, leaves_binary h rfl, byteWord_toNat]
    split
    case isTrue hn => rw [u256ToU8_32Into_apply, if_pos hn]
    case isFalse => rfl

/-- `BYTE` of the byte in front of the last one. -/
theorem word_codecs_byte :
    Leaves (byte_ 1) (wordsState [.ofU64 0x1234, .ofU64 30]) 0 0x12 := by
  have hbyte := word_codecs.2.2.2.2 (wordsState [.ofU64 0x1234, .ofU64 30]) 1 (fun _ => 0) (by decide)
  have hn : ((wordsState [.ofU64 0x1234, .ofU64 30]).stackSpace 1).toNat = 30 := by decide
  have hx : (wordsState [.ofU64 0x1234, .ofU64 30]).stackSpace (1 - 1) = .ofU64 0x1234 := by decide
  rw [hn, hx, if_pos (by decide), u256ToU8_32Into_apply] at hbyte
  exact hbyte

end TscVee
