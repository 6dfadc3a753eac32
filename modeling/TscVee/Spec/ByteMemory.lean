import TscVee.Lib.Bytes
import TscVee.Uint256

/-!
# `TscVee.Spec.ByteMemory`: EVM memory as an array of bytes

What the instructions that use the memory are to do, on an array of bytes that is zero at the start.

* `readWord`, `writeWord`: the 32 big-endian bytes of a word.
* `slice`, `overwrite`: a range of bytes.
* `wordsFor`: the words from the start of the memory up to the end of an access.
-/

set_option autoImplicit false

namespace TscVee

/-- The bytes of the memory. -/
abbrev Contents := Nat → Byte

namespace Contents

/-- The memory at the start. -/
def zero : Contents := fun _ => 0

/-- The number that the 32 bytes from `offset` on hold. -/
def readWord (m : Contents) (offset : Nat) : Nat := Lib.beNat (fun i => m (offset + i)) 32

/-- The 32 bytes from `offset` on replaced by the digits of `value`. -/
def writeWord (m : Contents) (offset value : Nat) : Contents := fun i =>
  if offset ≤ i ∧ i < offset + 32 then BitVec.ofNat 8 (value / 256 ^ (31 - (i - offset)) % 256)
  else m i

/-- What was written is read back. -/
theorem readWord_writeWord (m : Contents) (offset : Nat) {value : Nat} (h : value < 2 ^ 256) :
    (m.writeWord offset value).readWord offset = value := by
  unfold readWord writeWord
  rw [Lib.beNat_digits (x := value) fun i hi => by
    rw [if_pos (by omega), Nat.add_sub_cancel_left, BitVec.toNat_ofNat,
      Nat.mod_eq_of_lt (Nat.mod_lt _ (by decide))]]
  exact Nat.mod_eq_of_lt h

/-- The `n` bytes from `offset` on. -/
def slice (m : Contents) (offset n : Nat) : List Byte := (List.range n).map fun i => m (offset + i)

/-- A slice has the length that is asked for. -/
theorem slice_length (m : Contents) (offset n : Nat) : (m.slice offset n).length = n := by
  simp [slice]

/-- The `n` bytes from `offset` on replaced by the first `n` bytes of `f`. -/
def overwrite (m : Contents) (offset n : Nat) (f : Contents) : Contents := fun i =>
  if offset ≤ i ∧ i < offset + n then f (i - offset) else m i

/-- No byte is overwritten. -/
theorem overwrite_zero (m : Contents) (offset : Nat) (f : Contents) : m.overwrite offset 0 f = m := by
  funext i
  exact if_neg (by omega)

/-- Only the first `n` bytes are written. -/
theorem overwrite_congr (m : Contents) (offset : Nat) {n : Nat} {f g : Contents}
    (h : ∀ j < n, f j = g j) : m.overwrite offset n f = m.overwrite offset n g := by
  funext i
  unfold overwrite
  split
  case isTrue hi => exact h _ (by omega)
  case isFalse => rfl

/-- A range that is written directly behind another one. -/
theorem overwrite_overwrite (m : Contents) (offset a b : Nat) (f g : Contents) :
    (m.overwrite offset a f).overwrite (offset + a) b g =
      m.overwrite offset (a + b) fun j => if j < a then f j else g (j - a) := by
  funext i
  unfold overwrite
  by_cases hsecond : offset + a ≤ i ∧ i < offset + a + b
  · rw [if_pos hsecond, if_pos (by omega)]
    dsimp only
    rw [if_neg (by omega), Nat.sub_sub]
  · rw [if_neg hsecond]
    by_cases hfirst : offset ≤ i ∧ i < offset + a
    · rw [if_pos hfirst, if_pos (by omega)]
      dsimp only
      rw [if_pos (by omega)]
    · rw [if_neg hfirst, if_neg (by omega)]

/-- A longer range, whose further bytes stay. -/
theorem overwrite_extend (m : Contents) (offset : Nat) {a b : Nat} (h : a ≤ b) (f : Contents) :
    m.overwrite offset a f =
      m.overwrite offset b fun j => if j < a then f j else m (offset + j) := by
  funext i
  unfold overwrite
  by_cases hfirst : offset ≤ i ∧ i < offset + a
  · rw [if_pos hfirst, if_pos (by omega)]
    dsimp only
    rw [if_pos (by omega)]
  · rw [if_neg hfirst]
    split
    case isTrue hi =>
      dsimp only
      rw [if_neg (by omega)]
      congr 1
      omega
    case isFalse => rfl

/-- A range whose first bytes stay. -/
theorem overwrite_behind (m : Contents) (offset a b : Nat) (g : Contents) :
    m.overwrite (offset + a) b g =
      m.overwrite offset (a + b) fun j => if j < a then m (offset + j) else g (j - a) := by
  have hsame : m.overwrite offset a (fun j => m (offset + j)) = m := by
    have hnone := m.overwrite_extend offset (Nat.zero_le a) fun _ => 0
    simp only [Nat.not_lt_zero, if_false, overwrite_zero] at hnone
    exact hnone.symm
  conv_lhs => rw [← hsame]
  exact m.overwrite_overwrite offset a b _ g

/-- Two ways to overwrite a range agree where the bytes do. -/
theorem overwrite_eq_iff (m : Contents) (offset n : Nat) (f g : Contents) :
    m.overwrite offset n f = m.overwrite offset n g ↔ ∀ j < n, f j = g j := by
  refine ⟨fun h j hj => ?_, m.overwrite_congr offset⟩
  have hat := congrFun h (offset + j)
  unfold overwrite at hat
  rwa [if_pos (by omega), if_pos (by omega), Nat.add_sub_cancel_left] at hat

end Contents

/-- The words from the start of the memory to the end of the word at `offset`. -/
def wordsFor (offset : Nat) : Nat := (offset + 32 + 31) / 32

end TscVee
