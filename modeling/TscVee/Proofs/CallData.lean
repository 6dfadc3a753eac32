import TscVee.Proofs.WordBytes
import TscVee.Proofs.WordRules

/-!
# `TscVee.Proofs.CallData`: the window of `CALLDATALOAD`

The index is compared as a word with the size of the call data, and narrowed only where it is not
above the size.

* `calldataload_inside`, `calldataload_behind`: what is left on the two sides of the comparison.
* `leaves_calldataload`: the big-endian number of the 32 bytes from the index on.
-/

set_option autoImplicit false

namespace TscVee

open TscVee.Core Lib

variable {s : ExecutionState} {top : StackTop}

/-- A read of the call data within its bounds. -/
theorem readInput_eq {start n : Nat} (hin : start + n ≤ s.msg.inputData.length) :
    readInput start n s = .ok ((s.msg.inputData.drop start).take n) s := by
  unfold readInput
  refine ok_bind (b := s.msg) rfl ?_
  by_cases hzero : n = 0
  · rw [if_pos hzero, hzero, List.take_zero]
    rfl
  · rw [if_neg hzero, if_pos hin]
    rfl

/-- The bytes of the window from `i` on, and zeros behind the end of the call data. -/
theorem buffer_window (data : List Byte) (i : Nat) {j : Nat} (hj : j < 32) :
    buffer ((data.drop i).take (min (i + 32) data.length - i)) j = data.getD (i + j) 0 := by
  unfold buffer
  simp only [List.getD_eq_getElem?_getD, List.getElem?_take, List.getElem?_drop]
  by_cases hin : i + j < data.length
  · rw [if_pos (by omega)]
  · rw [if_neg (by omega), List.getElem?_eq_none (Nat.not_lt.1 hin)]

/-- The number of 32 bytes from an index behind the end. -/
theorem sum_window_behind (data : List Byte) {i : Nat} (hi : data.length ≤ i) :
    ∑ j ∈ Finset.range 32, (data.getD (i + j) 0).toNat * 256 ^ (31 - j) = 0 := by
  refine Finset.sum_eq_zero fun j _ => ?_
  rw [List.getD_eq_getElem?_getD, List.getElem?_eq_none (by omega)]
  exact Nat.zero_mul _

/-- `CALLDATALOAD` reads the call data from an index that is not behind its end. -/
theorem calldataload_inside (htop : StackHolds top 1)
    (hdata : s.msg.inputData.length = s.msg.inputSize) (hsize : s.msg.inputSize < 2 ^ 63)
    (hi : (s.stackSpace top).toNat ≤ s.msg.inputSize) :
    calldataload top s = .ok () (s.setSlot top (readu256BE (buffer
      ((s.msg.inputData.drop (s.stackSpace top).toNat).take
        (min ((s.stackSpace top).toNat + 32) s.msg.inputSize - (s.stackSpace top).toNat))))) := by
  have hslot : inStackSpace top := htop.top (by decide)
  have hgt : ¬ gt256 (s.stackSpace top) (.ofU64 (BitVec.ofNat 64 s.msg.inputSize)) = true := by
    rw [gt256_iff, ofU64_toNat, BitVec.toNat_ofNat, Nat.mod_eq_of_lt (by omega)]
    exact Nat.not_lt.2 hi
  -- The narrowed index is the index, and the end of the window does not wrap.
  have hlow : (s.stackSpace top).low = (s.stackSpace top).toNat := low_eq_toNat (by omega)
  have hend : ((s.stackSpace top).toNat + 32) % 2 ^ 64 = (s.stackSpace top).toNat + 32 :=
    Nat.mod_eq_of_lt (by omega)
  unfold calldataload
  dsimp only [StackTop.top]
  refine ok_bind (b := s.msg) rfl (ok_bind (load_eq hslot) ?_)
  rw [if_neg hgt, hlow, hend]
  exact ok_bind (readInput_eq (by omega)) (store_eq hslot _)

/-- `CALLDATALOAD` pushes 0 for an index behind the end. -/
theorem calldataload_behind (htop : StackHolds top 1) (hsize : s.msg.inputSize < 2 ^ 63)
    (hi : s.msg.inputSize < (s.stackSpace top).toNat) :
    calldataload top s = .ok () (s.setSlot top .zero) := by
  have hslot : inStackSpace top := htop.top (by decide)
  have hgt : gt256 (s.stackSpace top) (.ofU64 (BitVec.ofNat 64 s.msg.inputSize)) = true := by
    rw [gt256_iff, ofU64_toNat, BitVec.toNat_ofNat, Nat.mod_eq_of_lt (by omega)]
    exact hi
  unfold calldataload
  dsimp only [StackTop.top]
  refine ok_bind (b := s.msg) rfl (ok_bind (load_eq hslot) ?_)
  rw [if_pos hgt]
  exact store_eq hslot _

/-- `CALLDATALOAD` ends normally, so that it does not read outside of the call data, and leaves the
big-endian number of the 32 bytes from the index on, with zeros behind the end. -/
theorem leaves_calldataload (htop : StackHolds top 1)
    (hdata : s.msg.inputData.length = s.msg.inputSize) (hsize : s.msg.inputSize < 2 ^ 63) :
    Leaves (calldataload top) s top (∑ j ∈ Finset.range 32,
        (s.msg.inputData.getD ((s.stackSpace top).toNat + j) 0).toNat * 256 ^ (31 - j)) ∧
      (s.msg.inputSize ≤ (s.stackSpace top).toNat → Leaves (calldataload top) s top 0) := by
  have hvalue : Leaves (calldataload top) s top (∑ j ∈ Finset.range 32,
      (s.msg.inputData.getD ((s.stackSpace top).toNat + j) 0).toNat * 256 ^ (31 - j)) := by
    rcases Nat.lt_or_ge s.msg.inputSize (s.stackSpace top).toNat with hi | hi
    · rw [leaves_of_eq (calldataload_behind htop hsize hi), sum_window_behind _ (by omega)]
      rfl
    · rw [leaves_of_eq (calldataload_inside htop hdata hsize hi), readu256BE_toNat, ← hdata,
        ← beNat_eq_sum fun j => s.msg.inputData.getD ((s.stackSpace top).toNat + j) 0]
      exact beNat_congr fun j hj => buffer_window _ _ hj
  refine ⟨hvalue, fun hi => ?_⟩
  rwa [sum_window_behind _ (by omega)] at hvalue

/-- A state with this call data and this word on the stack. -/
def callDataState (data : List Byte) (index : Uint256) : ExecutionState :=
  let s := wordsState [index]
  { s with msg := { s.msg with inputData := data, inputSize := data.length } }

/-- The last of two bytes, and 31 zeros. -/
theorem leaves_calldataload_last :
    Leaves (calldataload 0) (callDataState [0xa9, 0x05] .one) 0 (5 * 256 ^ 31) := by
  have hleaves := (leaves_calldataload (s := callDataState [0xa9, 0x05] .one)
    (by decide : StackHolds 0 1) (by decide) (by decide)).1
  have hsum : ∑ j ∈ Finset.range 32, ((callDataState [0xa9, 0x05] .one).msg.inputData.getD
      (((callDataState [0xa9, 0x05] .one).stackSpace 0).toNat + j) 0).toNat * 256 ^ (31 - j) =
      5 * 256 ^ 31 := by decide
  rwa [hsum] at hleaves

end TscVee
