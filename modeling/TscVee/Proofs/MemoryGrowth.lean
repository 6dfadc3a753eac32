import TscVee.Proofs.CoreRules
import TscVee.Proofs.Words

/-!
# `TscVee.Proofs.MemoryGrowth`: what a memory check does exactly

* `Grown`: the effect of `Memory_grow`. It needs `Allocates`, that the allocation it may ask for
  succeeds.
* `Expanded s s' newSize`: the memory of `s` has been made to reach up to `newSize`, at the price
  of the words it grew by, and reads as zero where it is new.
* `sat_growMemory_exact`, `sat_requireMemoryU64_exact`, `sat_requireMemoryU256_exact`: every outcome
  of a check whose sums do not wrap, with the condition for it.
-/

set_option autoImplicit false

namespace TscVee

open TscVee.Core Lib

/-- The capacity after `Memory_grow`. -/
def Memory.capacityFor (memory : Memory) (newSize : Nat) : Nat :=
  if newSize > memory.mCapacity then
    if memory.mCapacity * 2 < newSize then
      (newSize + (memory.pageSize - 1)) / memory.pageSize * memory.pageSize
    else memory.mCapacity * 2
  else memory.mCapacity

/-- The memory has the size `newSize`, and reads as before, and as zero where it is new. -/
structure Grown (s s' : ExecutionState) (newSize : Nat) : Prop where
  same : s' = { s with memory := s'.memory, fresh := s'.fresh }
  size : s'.memory.mSize = newSize
  pageSize : s'.memory.pageSize = s.memory.pageSize
  capacity : s'.memory.mCapacity = s.memory.capacityFor newSize
  data : ∃ data', s'.memory.mData = some data' ∧
    (∀ i, s.memory.mSize ≤ i → i < newSize → data' i = 0) ∧
    ∀ data, s.memory.mData = some data → ∀ i, i < s.memory.mSize → data' i = data i

/-- The price of a memory that reaches up to `newSize`, on top of what is paid for. -/
def expansionCost (s : ExecutionState) (newSize : Nat) : Int :=
  if s.memory.mSize < newSize then
    memoryPrice (numWords newSize) - memoryPrice (s.memory.mSize / 32)
  else 0

/-- The memory reaches up to `newSize`, and its price is paid. -/
structure Expanded (s s' : ExecutionState) (newSize : Nat) : Prop where
  same : SameButMemory s s'
  size : s'.memory.mSize = max s.memory.mSize (32 * numWords newSize)
  gas : s'.gasLeft = s.gasLeft - (memoryPrice (s'.memory.mSize / 32) -
    memoryPrice (s.memory.mSize / 32))
  pageSize : s'.memory.pageSize = s.memory.pageSize
  capacity : 0 < s.memory.pageSize → s.memory.mSize ≤ s.memory.mCapacity →
    s'.memory.mSize ≤ s'.memory.mCapacity
  data : ∀ data, s.memory.mData = some data → ∃ data', s'.memory.mData = some data' ∧
    ∀ i, i < s'.memory.mSize → data' i = if i < s.memory.mSize then data i else 0

/-! ### Words and prices -/

/-- The number of words, when the sum does not wrap. -/
theorem numWords_eq {n : Nat} (h : n + 31 < 2 ^ 64) : numWords n = (n + 31) / 32 := by
  rw [numWords, Nat.mod_eq_of_lt h]

/-- The words cover the bytes. -/
theorem le_numWords {n : Nat} (h : n + 31 < 2 ^ 64) : n ≤ 32 * numWords n := by
  rw [numWords_eq h]
  omega

/-- A multiple of 32 above `n` has room for the words of `n`. -/
theorem numWords_le {n m : Nat} (h : n + 31 < 2 ^ 64) (hm : m % 32 = 0) (hle : n ≤ m) :
    32 * numWords n ≤ m := by
  rw [numWords_eq h]
  omega

/-- The cost fits in 64 bits when the square does. -/
theorem isInt64_memoryPrice {n : Nat} (h : isInt64 ((n * n : Nat) : Int)) :
    isInt64 (memoryPrice n) := by
  have hlt := lt_of_square h
  unfold isInt64 memoryPrice at *
  omega

/-- The offset is a 32-bit number. -/
theorem offsetTooLarge_iff (offset : Uint256) :
    offsetTooLarge offset = true ↔ 2 ^ 32 - 1 < offset.toNat := by
  have h0 := offset.lower.lower.isLt
  have hzero : ∀ x : U64, x = 0 ↔ x.toNat = 0 := fun x => by
    rw [← BitVec.toNat_inj]
    rfl
  have hor : (offset.upper.upper ||| offset.lower.upper ||| offset.upper.lower) = 0 ↔
      offset.upper.upper.toNat = 0 ∧ offset.lower.upper.toNat = 0 ∧
        offset.upper.lower.toNat = 0 := by
    rw [hzero, BitVec.toNat_or, BitVec.toNat_or, Nat.or_eq_zero_iff, Nat.or_eq_zero_iff, and_assoc]
  unfold offsetTooLarge maxBufferSize Uint256.low Uint256.toNat
  rw [Bool.or_eq_true, bne_iff_ne, ne_eq, hor, decide_eq_true_eq]
  omega

/-- An offset that passes has 32 bits. -/
theorem offsetTooLarge_eq_false {offset : Uint256} (h : offsetTooLarge offset = false) :
    offset.low = offset.toNat ∧ offset.toNat < 2 ^ 32 := by
  have hle : ¬ 2 ^ 32 - 1 < offset.toNat := by
    rw [← offsetTooLarge_iff, h]
    decide
  exact ⟨low_eq_toNat (by omega), by omega⟩

section
variable {s : ExecutionState} [Env]

/-- The allocation that a growth to `newSize` asks for succeeds, if it asks for one. -/
def Allocates (s : ExecutionState) (newSize : Nat) : Prop :=
  if newSize > s.memory.mCapacity then
    Env.allocates s.fresh (s.memory.capacityFor newSize) = true
  else s.memory.mData ≠ none

/-- `Memory_grow`, called with a larger multiple of 32. -/
theorem sat_memoryGrow_exact (s : ExecutionState) {newSize : Nat} (h32 : newSize % 32 = 0)
    (hlarger : s.memory.mSize < newSize) :
    Sat (memoryGrow newSize) s
      (fun _ s' => Allocates s newSize ∧ Grown s s' newSize)
      fun h s' => h = .fault .nullPointer ∧ ¬ Allocates s newSize ∧
        s'.memory.mSize = s.memory.mSize ∧ s'.memory.mData = none ∧
        s' = { s with memory := s'.memory, fresh := s'.fresh } := by
  unfold memoryGrow memoryAllocateCapacity
  simp only [sat_bind, sat_read, sat_ite, sat_fault, sat_modify, sat_nextFresh]
  refine ⟨fun h => absurd h32 h, fun _ => ⟨fun h => absurd hlarger h, fun _ => ⟨fun hcap => ?_,
    fun hcap => ?_⟩⟩⟩
  -- The capacity is too small: the memory is allocated again.
  · have hcapacity : s.memory.capacityFor newSize = if s.memory.mCapacity * 2 < newSize then
        (newSize + (s.memory.pageSize - 1)) / s.memory.pageSize * s.memory.pageSize
      else s.memory.mCapacity * 2 := if_pos hcap
    have hallocates : Allocates s newSize ↔
        Env.allocates s.fresh (s.memory.capacityFor newSize) = true := by
      rw [Allocates, if_pos hcap]
    rw [← hcapacity]
    by_cases halloc : Env.allocates s.fresh (s.memory.capacityFor newSize) = true
    · simp only [halloc, if_true]
      refine ⟨hallocates.2 halloc, rfl, rfl, rfl, rfl, _, rfl, fun i hi hi' => ?_,
        fun data hdata i hi => ?_⟩
      · exact if_pos ⟨hi, hi'⟩
      · rw [if_neg (by omega), hdata]
        rfl
    · simp only [halloc]
      exact ⟨rfl, mt hallocates.1 halloc, rfl, rfl, rfl⟩
  -- The capacity is enough, and the memory may still be missing.
  · have hcapacity : s.memory.capacityFor newSize = s.memory.mCapacity := if_neg hcap
    have hallocates : Allocates s newSize ↔ s.memory.mData ≠ none := by
      rw [Allocates, if_neg hcap]
    cases hdata : s.memory.mData with
    | none => exact ⟨rfl, fun h => hallocates.1 h hdata, rfl, hdata, rfl⟩
    | some data =>
        refine ⟨hallocates.2 (by rw [hdata]; simp), rfl, rfl, rfl, hcapacity.symm, _, rfl,
          fun i hi hi' => ?_, fun data' hdata' i hi => ?_⟩
        · exact if_pos ⟨hi, hi'⟩
        · rw [hdata] at hdata'
          rw [← Option.some.inj hdata', if_neg (by omega)]

omit [Env] in
/-- The new capacity, in whole pages, holds the new size. -/
theorem Memory.le_capacityFor (memory : Memory) {newSize : Nat} (hpage : 0 < memory.pageSize) :
    newSize ≤ memory.capacityFor newSize := by
  unfold capacityFor
  split
  · split
    · have hlt := Nat.lt_div_mul_add (a := newSize + (memory.pageSize - 1)) hpage
      omega
    · omega
  · omega

/-- The check can be paid for in 64 bits: no product and no difference of `grow_memory` wraps. -/
def PriceFits (s : ExecutionState) (newSize : Nat) : Prop :=
  s.memory.mSize < newSize →
    isInt64 ((numWords newSize * numWords newSize : Nat) : Int) ∧
      isInt64 (s.gasLeft - expansionCost s newSize)

/-- The growth that a check up to `newSize` asks for gets its memory. -/
def GetsMemory (s : ExecutionState) (newSize : Nat) : Prop :=
  s.memory.mSize < newSize → Allocates s (32 * numWords newSize)

omit [Env] in
/-- A check that finds the memory large enough. -/
theorem Expanded.of_le {newSize : Nat} {trace : List Event} (h : newSize ≤ s.memory.mSize)
    (hwrap : newSize + 31 < 2 ^ 64) (h32 : s.memory.mSize % 32 = 0) :
    Expanded s { s with trace := trace } newSize := by
  have hwords := numWords_le hwrap h32 h
  refine ⟨rfl, (max_eq_left hwords).symm, ?_, rfl, fun _ hcap => hcap, fun data hdata =>
    ⟨data, hdata, fun i hi => (if_pos hi).symm⟩⟩
  simp only [sub_self, sub_zero]

omit [Env] in
/-- The trace of the state before does not matter. -/
theorem Expanded.behind {s' : ExecutionState} {newSize : Nat} {trace : List Event}
    (h : Expanded { s with trace := trace } s' newSize) : Expanded s s' newSize :=
  ⟨h.same, h.size, h.gas, h.pageSize, h.capacity, h.data⟩

/-- Every outcome of `grow_memory`, called with more than the current size. -/
theorem sat_growMemory_exact {newSize : Nat} (hsize : s.memory.mSize < newSize)
    (hwrap : newSize + 31 < 2 ^ 64) (h32 : s.memory.mSize % 32 = 0) :
    Sat (growMemory newSize) s
      (fun grown s' => PriceFits s newSize ∧ match grown with
        | true => expansionCost s newSize ≤ s.gasLeft ∧ GetsMemory s newSize ∧
            Expanded s s' newSize
        | false => s.gasLeft < expansionCost s newSize ∧
            s' = { s with gasLeft := s.gasLeft - expansionCost s newSize })
      fun h _ => (h = .fault .signedOverflow ∧ ¬ PriceFits s newSize) ∨
        (h = .fault .nullPointer ∧ ¬ GetsMemory s newSize ∧ PriceFits s newSize ∧
          expansionCost s newSize ≤ s.gasLeft) := by
  have hcost : expansionCost s newSize =
      memoryPrice (numWords newSize) - memoryPrice (s.memory.mSize / 32) := if_pos hsize
  have hcover := le_numWords hwrap
  have hfits : PriceFits s newSize ↔ isInt64 ((numWords newSize * numWords newSize : Nat) : Int) ∧
      isInt64 (s.gasLeft - expansionCost s newSize) := ⟨fun h => h hsize, fun h _ => h⟩
  have hgets : GetsMemory s newSize ↔ Allocates s (32 * numWords newSize) :=
    ⟨fun h => h hsize, fun h _ => h⟩
  unfold growMemory
  simp only [sat_bind, sat_read]
  simp only [sat_memoryCost, sat_subGas', sat_ite, sat_pure]
  rw [← hcost]
  split
  case isFalse hnew =>
    exact Or.inl ⟨trivial, fun h => hnew ⟨(hfits.1 h).1, isInt64_memoryPrice (hfits.1 h).1⟩⟩
  case isTrue hnew =>
  -- The words that are paid for are fewer, so their cost fits too.
  have hle : s.memory.mSize / 32 ≤ numWords newSize := by omega
  have hcurrent : isInt64 ((s.memory.mSize / 32 * (s.memory.mSize / 32) : Nat) : Int) := by
    have hsq := Nat.mul_le_mul hle hle
    have hnew' := hnew.1
    unfold isInt64 at *
    omega
  rw [if_pos ⟨hcurrent, isInt64_memoryPrice hcurrent⟩]
  split
  case isFalse hgas => exact Or.inl ⟨trivial, fun h => hgas (hfits.1 h).2⟩
  case isTrue hgas =>
  have hpriceFits := hfits.2 ⟨hnew.1, hgas⟩
  refine ⟨fun hneg => ⟨hpriceFits, by omega, rfl⟩, fun hpos => ?_⟩
  simp only [sat_bind, sat_log, sat_pure]
  have hgrow := sat_memoryGrow_exact { s with gasLeft := s.gasLeft - expansionCost s newSize }
    (show numWords newSize * 32 % 32 = 0 by omega) (by simp only; omega)
  rw [Nat.mul_comm 32] at hgets
  refine hgrow.mono (fun _ s' ⟨halloc, hgrown⟩ => ?_) fun h s' ⟨hh, halloc, _⟩ => ?_
  · refine ⟨hpriceFits, by omega, hgets.2 halloc, ?_⟩
    have hsame := hgrown.same
    refine ⟨?_, ?_, ?_, hgrown.pageSize, fun hpage hcap => ?_, fun data hdata => ?_⟩
    · rw [SameButMemory, hsame]
    · simp only [hgrown.size]
      omega
    · simp only [hgrown.size]
      rw [hsame, hcost, Nat.mul_div_cancel _ (by decide)]
    · simp only [hgrown.size, hgrown.capacity]
      exact Memory.le_capacityFor _ hpage
    · obtain ⟨data', hdata', hzero, hkeep⟩ := hgrown.data
      refine ⟨data', hdata', fun i hi => ?_⟩
      simp only [hgrown.size] at hi
      split
      case isTrue hold => exact hkeep data hdata i hold
      case isFalse hnew => exact hzero i (by simp only; omega) hi
  · exact Or.inr ⟨hh, fun h => halloc (hgets.1 h), hpriceFits, by omega⟩

/-- A memory check up to `newSize` passes. -/
structure CheckPasses (s s' : ExecutionState) (newSize : Nat) : Prop where
  fits : PriceFits s newSize
  gas : s.memory.mSize < newSize → expansionCost s newSize ≤ s.gasLeft
  memory : GetsMemory s newSize
  expanded : Expanded s s' newSize

/-- A memory check up to `newSize` ends the instruction. -/
def CheckFails (s : ExecutionState) (newSize : Nat) (h : Halt) : Prop :=
  (h = .ret .outOfGas ∧ PriceFits s newSize ∧ s.memory.mSize < newSize ∧
    s.gasLeft < expansionCost s newSize) ∨
  (h = .fault .signedOverflow ∧ ¬ PriceFits s newSize) ∨
  (h = .fault .nullPointer ∧ ¬ GetsMemory s newSize)

/-- Every outcome of `if (!check_memory_u64(...)) return EVMC_OUT_OF_GAS;` for a sum that does not
wrap. -/
theorem sat_requireMemoryU64_exact (offset : Uint256) {size : Nat} (hsize : size < 2 ^ 63)
    (h32 : s.memory.mSize % 32 = 0) :
    Sat (requireMemoryU64 offset size) s
      (fun _ s' => offset.toNat < 2 ^ 32 ∧ CheckPasses s s' (offset.toNat + size))
      fun h _ => (2 ^ 32 ≤ offset.toNat ∧ h = .ret .outOfGas) ∨
        (offset.toNat < 2 ^ 32 ∧ CheckFails s (offset.toNat + size) h) := by
  unfold requireMemoryU64 checkMemoryU64
  simp only [sat_bind, sat_ite, sat_pure, sat_read, sat_log]
  -- A large offset, a range past the end, a range inside.
  refine ⟨fun hlarge => ?_, fun hlarge => ?_⟩
  · have hoffset := (offsetTooLarge_iff offset).1 hlarge
    exact ⟨fun _ => Or.inl ⟨by omega, rfl⟩, fun h => absurd rfl h⟩
  · obtain ⟨hlow, hlt⟩ := offsetTooLarge_eq_false (Bool.eq_false_iff.2 hlarge)
    have hmod : (offset.toNat + size) % 2 ^ 64 = offset.toNat + size := Nat.mod_eq_of_lt (by omega)
    rw [hlow, hmod]
    refine ⟨fun hgrow => ?_, fun hfits => ?_⟩
    · have hgrow : ({ s with trace := s.trace ++ [.memRange offset.toNat size] } :
          ExecutionState).memory.mSize < offset.toNat + size := hgrow
      refine (sat_growMemory_exact hgrow (by omega) h32).mono (fun grown s' hgrown => ?_)
        fun h s' hh => Or.inr ⟨hlt, ?_⟩
      · obtain ⟨hfits, hgrown⟩ := hgrown
        cases grown with
        | true =>
            exact ⟨fun h => by simp at h, fun _ => ⟨hlt, hfits, fun _ => hgrown.1, hgrown.2.1,
              hgrown.2.2.behind⟩⟩
        | false => exact ⟨fun _ => Or.inr ⟨hlt, Or.inl ⟨rfl, hfits, hgrow, hgrown.1⟩⟩,
            fun h => absurd rfl h⟩
      · rcases hh with h | h
        · exact Or.inr (Or.inl h)
        · exact Or.inr (Or.inr ⟨h.1, h.2.1⟩)
    · refine ⟨fun h => by simp at h, fun _ => ⟨hlt, fun h => absurd h hfits,
        fun h => absurd h hfits, fun h => absurd h hfits, ?_⟩⟩
      exact Expanded.of_le (Nat.le_of_not_lt hfits) (by omega) h32

/-- Every outcome of `if (!check_memory_u256(...)) return EVMC_OUT_OF_GAS;` for a size whose low
limb lets no sum wrap. -/
theorem sat_requireMemoryU256_exact (offset size : Uint256) (hsize : size.low < 2 ^ 63)
    (h32 : s.memory.mSize % 32 = 0) :
    Sat (requireMemoryU256 offset size) s
      (fun _ s' => (size.toNat = 0 ∧ s' = s) ∨
        (size.toNat ≠ 0 ∧ offset.toNat < 2 ^ 32 ∧ CheckPasses s s' (offset.toNat + size.low)))
      fun h _ => size.toNat ≠ 0 ∧ ((2 ^ 32 ≤ offset.toNat ∧ h = .ret .outOfGas) ∨
        (offset.toNat < 2 ^ 32 ∧ CheckFails s (offset.toNat + size.low) h)) := by
  have hu64 := sat_requireMemoryU64_exact (s := s) offset hsize h32
  unfold requireMemoryU64 at hu64
  unfold requireMemoryU256 checkMemoryU256
  simp only [sat_bind, sat_ite, sat_pure, zero256_iff] at hu64 ⊢
  refine ⟨fun hzero => ⟨fun h => by simp at h, fun _ => Or.inl ⟨hzero, trivial⟩⟩,
    fun hzero => ⟨fun hlarge => ⟨fun _ => ⟨hzero, Or.inl ⟨?_, rfl⟩⟩, fun h => absurd rfl h⟩,
      fun _ => ?_⟩⟩
  · have hoffset := (offsetTooLarge_iff offset).1 hlarge
    omega
  · refine hu64.mono (fun ok s' h => ⟨fun hok => ⟨hzero, h.1 hok⟩,
      fun hok => Or.inr ⟨hzero, h.2 hok⟩⟩) fun h s' hh => ⟨hzero, hh⟩

end

end TscVee
