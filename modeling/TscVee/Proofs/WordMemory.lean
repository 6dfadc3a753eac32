import TscVee.Proofs.MemoryGrowth
import TscVee.Proofs.WordBytes
import TscVee.Spec.ByteMemory

/-!
# `TscVee.Proofs.WordMemory`: `MLOAD` and `MSTORE` refine an array of bytes

* `Access`: one `MLOAD` or `MSTORE`, with the stack that it finds. `contentsAfter` and `wordsAfter`
  are the bytes and the number of words that a list of accesses leaves.
* `Refines g as s`: after the accesses `as`, the memory of `s` holds those bytes, zeros included,
  and the words are paid for from `g`.
* `sat_run`: one more access keeps `Refines`, or fails for one of two reasons.
* `run_refines`: a list of accesses.
-/

set_option autoImplicit false

namespace TscVee

open TscVee.Core Lib

/-- An `MLOAD`, or an `MSTORE`, on the stack that it finds. Its operands are on the stack. -/
structure Access where
  isStore : Bool
  stackSpace : Slot → Uint256
  top : Slot
  top_in : inStackSpace top
  value_in : isStore = true → inStackSpace (top - 1)

namespace Access

variable (a : Access)

/-- The first operand. -/
def offset : Nat := (a.stackSpace a.top).toNat

/-- The second operand of an `MSTORE`. -/
def value : Nat := (a.stackSpace (a.top - 1)).toNat

/-- The access runs on its stack. -/
def run [Env] : Core Unit := do
  modify fun s => { s with stackSpace := a.stackSpace }
  if a.isStore then mstore a.top else mload a.top

/-- The bytes that the access leaves. -/
def contents (m : Contents) : Contents := if a.isStore then m.writeWord a.offset a.value else m

end Access

/-- The bytes after a list of accesses. -/
def contentsAfter (accesses : List Access) : Contents :=
  accesses.foldl (fun m a => a.contents m) Contents.zero

/-- The words after a list of accesses: the largest number that one of them touches. -/
def wordsAfter (accesses : List Access) : Nat :=
  accesses.foldl (fun w a => max w (wordsFor a.offset)) 0

/-- One more access. -/
theorem contentsAfter_concat (accesses : List Access) (a : Access) :
    contentsAfter (accesses ++ [a]) = a.contents (contentsAfter accesses) := by
  simp [contentsAfter]

/-- `Memory_init` has been called, and its allocation succeeded. -/
structure Memory.Initialised (memory : Memory) : Prop where
  pageSize : memory.pageSize = 4 * 1024
  mData : memory.mData ≠ none
  mSize : memory.mSize = 0
  mCapacity : memory.mCapacity = 4 * 1024

/-- The state holds the bytes `m`, in `w` words, and the gas `g` less the price of the words. -/
structure Refines (g : Int) (m : Contents) (w : Nat) (s : ExecutionState) : Prop where
  data : ∃ data, s.memory.mData = some data ∧ ∀ i, i < s.memory.mSize → data i = m i
  zero : ∀ i, s.memory.mSize ≤ i → m i = 0
  size : s.memory.mSize = 32 * w
  capacity : s.memory.mSize ≤ s.memory.mCapacity
  pageSize : 0 < s.memory.pageSize
  gas : s.gasLeft = g - memoryPrice w
  gas_nonneg : 0 ≤ s.gasLeft

/-- The first memory refines that of zeros. -/
theorem refines_init {s : ExecutionState} (hinit : s.memory.Initialised) (hgas : 0 ≤ s.gasLeft) :
    Refines s.gasLeft Contents.zero 0 s := by
  obtain ⟨data, hdata⟩ := Option.ne_none_iff_exists'.1 hinit.mData
  refine ⟨⟨data, hdata, fun i hi => ?_⟩, fun _ _ => rfl, hinit.mSize, ?_, ?_, ?_, hgas⟩
  · rw [hinit.mSize] at hi
    omega
  · rw [hinit.mSize]
    exact Nat.zero_le _
  · rw [hinit.pageSize]
    decide
  · rw [show memoryPrice 0 = 0 from rfl, sub_zero]

/-- The stack space is no part of what is refined. -/
theorem Refines.stack {g : Int} {m : Contents} {w : Nat} {s : ExecutionState} (h : Refines g m w s)
    (stackSpace : Slot → Uint256) : Refines g m w { s with stackSpace := stackSpace } :=
  ⟨h.data, h.zero, h.size, h.capacity, h.pageSize, h.gas, h.gas_nonneg⟩

section
variable [Env] {g : Int} {m : Contents} {w : Nat} {s : ExecutionState}

omit [Env] in
/-- The price of a memory is not negative. -/
theorem memoryPrice_zero_le (n : Nat) : 0 ≤ memoryPrice n := by
  unfold memoryPrice
  omega

omit [Env] in
/-- The price of a check for a word never leaves 64 bits. -/
theorem Refines.priceFits (h : Refines g m w s) (hg : isInt64 g) {offset : Nat}
    (hoffset : offset < 2 ^ 32) : PriceFits s (offset + 32) := by
  intro hlt
  have hwords : numWords (offset + 32) ≤ 2 ^ 28 := by
    rw [numWords_eq (by omega)]
    omega
  have hsq := Nat.mul_le_mul hwords hwords
  have hmono := memoryPrice_mono hwords
  have hcover := le_numWords (n := offset + 32) (by omega)
  have hold := memoryPrice_mono (m := s.memory.mSize / 32) (n := numWords (offset + 32)) (by omega)
  have hold' := memoryPrice_zero_le (s.memory.mSize / 32)
  have hprice : memoryPrice (2 ^ 28) < 2 ^ 62 := by decide
  have hgas := h.gas
  have hnonneg := h.gas_nonneg
  have hw := memoryPrice_zero_le w
  rw [expansionCost, if_pos hlt]
  unfold isInt64 at *
  exact ⟨by omega, by omega, by omega⟩

/-- With all allocations, the memory is got. -/
theorem Refines.getsMemory (h : Refines g m w s) (halloc : ∀ k n, Env.allocates k n = true)
    (newSize : Nat) : GetsMemory s newSize := by
  intro _
  unfold Allocates
  split
  · exact halloc _ _
  · obtain ⟨data, hdata, -⟩ := h.data
    rw [hdata]
    simp

/-- The memory has been checked for a word at `offset`. -/
structure WordChecked (g : Int) (m : Contents) (w offset : Nat) (s s' : ExecutionState) :
    Prop where
  same : SameButMemory s s'
  offset_lt : offset < 2 ^ 32
  price_le : memoryPrice (max w (wordsFor offset)) ≤ g
  refines : Refines g m (max w (wordsFor offset)) s'
  fits : offset + 32 ≤ s'.memory.mSize

/-- The check for a word at `offset` passes, and the memory reaches up to its end, or it fails
because of the offset or of the price. -/
theorem Refines.check (h : Refines g m w s) (hg : isInt64 g)
    (halloc : ∀ k n, Env.allocates k n = true) (offset : Uint256) :
    Sat (requireMemoryU64 offset 32) s
      (fun _ s' => WordChecked g m w offset.toNat s s')
      fun h _ => h = .ret .outOfGas ∧
        (2 ^ 32 ≤ offset.toNat ∨ g < memoryPrice (max w (wordsFor offset.toNat))) := by
  have h32 : s.memory.mSize % 32 = 0 := by
    rw [h.size]
    omega
  have hsize := h.size
  have hgas := h.gas
  -- The exact check says what the memory is behind it, and why it fails.
  refine (sat_requireMemoryU64_exact offset (by decide) h32).mono (fun _ s' ⟨hlt, hpass⟩ => ?_)
    fun halt s' hfail => ?_
  · have hnew : numWords (offset.toNat + 32) = wordsFor offset.toNat := numWords_eq (by omega)
    have hexp := hpass.expanded
    have hsize' := hexp.size
    have hgas' := hexp.gas
    have hw : s'.memory.mSize = 32 * max w (wordsFor offset.toNat) := by
      rw [hsize', hnew, hsize]
      omega
    rw [hsize, hw, Nat.mul_div_cancel_left _ (by decide),
      Nat.mul_div_cancel_left _ (by decide)] at hgas'
    -- The gas was enough for the growth, which is the only thing that is paid for.
    have hnonneg : 0 ≤ s'.gasLeft := by
      have hold := h.gas_nonneg
      by_cases hgrow : s.memory.mSize < offset.toNat + 32
      · have hcost := hpass.gas hgrow
        have hmax : max w (wordsFor offset.toNat) = wordsFor offset.toNat := by
          unfold wordsFor
          omega
        rw [expansionCost, if_pos hgrow, hnew, hsize, Nat.mul_div_cancel_left _ (by decide)] at hcost
        rw [hmax] at hgas'
        omega
      · have hmax : max w (wordsFor offset.toNat) = w := by
          unfold wordsFor
          omega
        rw [hmax] at hgas'
        omega
    refine ⟨hexp.same, hlt, by omega, ⟨?_, fun i hi => ?_, hw, hexp.capacity h.pageSize h.capacity,
      by rw [hexp.pageSize]; exact h.pageSize, by omega, hnonneg⟩, ?_⟩
    -- The old bytes are kept and the new ones are zero, as in the memory of the specification.
    · obtain ⟨data, hdata, hm⟩ := h.data
      obtain ⟨data', hdata', hm'⟩ := hexp.data data hdata
      refine ⟨data', hdata', fun i hi => ?_⟩
      rw [hm' i hi]
      split
      · exact hm i ‹_›
      · exact (h.zero i (by omega)).symm
    · exact h.zero i (by omega)
    · rw [hw]
      unfold wordsFor
      omega
  -- The check fails for a large offset or for lack of gas. The overflow of the price and the failed
  -- allocation are excluded.
  · rcases hfail with ⟨hlarge, rfl⟩ | ⟨hlt, ⟨rfl, -, hgrow, hcost⟩ | ⟨-, hfits⟩ | ⟨-, hgets⟩⟩
    · exact ⟨rfl, Or.inl hlarge⟩
    · have hnew : numWords (offset.toNat + 32) = wordsFor offset.toNat := numWords_eq (by omega)
      have hmax : max w (wordsFor offset.toNat) = wordsFor offset.toNat := by
        unfold wordsFor
        omega
      rw [expansionCost, if_pos hgrow, hnew, hsize, Nat.mul_div_cancel_left _ (by decide)] at hcost
      rw [hmax]
      exact ⟨rfl, Or.inr (by omega)⟩
    · exact absurd (h.priceFits hg hlt) hfits
    · exact absurd (h.getsMemory halloc _) hgets

/-! ### One access -/

omit [Env] in
/-- The bytes of a word are written. -/
theorem Refines.write (h : Refines g m w s) {offset : Nat} (hin : offset + 32 ≤ s.memory.mSize)
    {value : Uint256} {bytes : List Byte} (hlen : bytes.length = 32)
    (hbytes : ∀ i, i < 32 → bytes.getD i 0 = u256Byte value i) :
    Sat (writeMemory offset bytes) s
      (fun _ s' => Refines g (m.writeWord offset value.toNat) w s') fun _ _ => False := by
  obtain ⟨data, hdata, hm⟩ := h.data
  have hne : ¬ bytes.isEmpty = true := by
    rw [List.isEmpty_iff_length_eq_zero, hlen]
    decide
  rw [sat_writeMemory, if_neg hne, sat_access, hdata, hlen]
  simp only
  rw [if_pos hin]
  refine ⟨⟨_, rfl, fun i hi => ?_⟩, fun i hi => ?_, h.size, h.capacity, h.pageSize, h.gas,
    h.gas_nonneg⟩
  -- Inside the word, its bytes from the highest; outside, the old contents.
  · unfold Contents.writeWord
    split
    case isTrue hrange =>
      rw [hbytes _ (by omega)]
      refine BitVec.eq_of_toNat_eq ?_
      rw [u256Byte_toNat value (by omega), BitVec.toNat_ofNat,
        Nat.mod_eq_of_lt (Nat.mod_lt _ (by decide))]
    case isFalse hrange => exact hm i hi
  -- Past the end nothing changes: the word ends inside.
  · simp only [ExecutionState.setData, ExecutionState.logAccess] at hi
    rw [Contents.writeWord, if_neg (by omega)]
    exact h.zero i hi

omit [Env] in
/-- The bytes of a word are read. -/
theorem Refines.read (h : Refines g m w s) {offset : Nat} (hin : offset + 32 ≤ s.memory.mSize) :
    Sat (readMemory offset 32) s
      (fun data s' => Refines g m w s' ∧ (readu256BE (buffer data)).toNat = m.readWord offset)
      fun _ _ => False := by
  obtain ⟨data, hdata, hm⟩ := h.data
  rw [sat_readMemory, if_neg (by decide), sat_access, hdata]
  simp only
  rw [if_pos hin]
  refine ⟨⟨⟨data, hdata, hm⟩, h.zero, h.size, h.capacity, h.pageSize, h.gas, h.gas_nonneg⟩, ?_⟩
  rw [readu256BE_toNat]
  refine beNat_congr fun i hi => ?_
  rw [buffer, List.getD_eq_getElem?_getD, List.getElem?_map, List.getElem?_range hi]
  exact hm _ (by omega)

omit [Env] in
/-- A byte of the list is that of the word. -/
theorem u256ToU8_32_getD (x : Uint256) {i : Nat} (hi : i < 32) :
    (u256ToU8_32 x).toList.getD i 0 = u256Byte x i := by
  rw [List.getD_eq_getElem?_getD, Vector.getElem?_toList, u256ToU8_32, Vector.getElem?_ofFn,
    dif_pos hi]
  rfl

/-- An access as a whole: it keeps the refinement, and an `MLOAD` leaves the word that the bytes
hold, or it fails because of its offset or of the price. -/
theorem Refines.run (h : Refines g m w s) (hg : isInt64 g)
    (halloc : ∀ k n, Env.allocates k n = true) (a : Access) :
    Sat a.run s
      (fun _ s' => a.offset < 2 ^ 32 ∧ memoryPrice (max w (wordsFor a.offset)) ≤ g ∧
        Refines g (a.contents m) (max w (wordsFor a.offset)) s' ∧
        (a.isStore = false → (s'.stackSpace a.top).toNat = m.readWord a.offset))
      fun halt _ => halt = .ret .outOfGas ∧
        (2 ^ 32 ≤ a.offset ∨ g < memoryPrice (max w (wordsFor a.offset))) := by
  have hcheck := (h.stack a.stackSpace).check hg halloc (a.stackSpace a.top)
  unfold Access.run mload mstore Access.contents Access.offset Access.value
  simp only [sat_bind, sat_modify, sat_ite, StackTop.pop, StackTop.top]
  refine ⟨fun hstore => ?_, fun hload => ?_⟩
  · simp only [sat_load, a.top_in, a.value_in hstore, if_true, hstore]
    refine hcheck.mono (fun _ s₂ h₂ => ?_) fun halt _ hh => hh
    have hstack : s₂.stackSpace = a.stackSpace := by rw [h₂.same]
    rw [hstack, low_eq_toNat (by have := h₂.offset_lt; omega)]
    have hlen : (u256ToU8_32 (a.stackSpace (a.top - 1))).toList.length = 32 := Vector.length_toList
    have hbytes : ∀ i, i < 32 → (u256ToU8_32 (a.stackSpace (a.top - 1))).toList.getD i 0 =
        u256Byte (a.stackSpace (a.top - 1)) i := fun i => u256ToU8_32_getD _
    -- the bytes as a variable, so that nothing unfolds them
    generalize (u256ToU8_32 (a.stackSpace (a.top - 1))).toList = bytes at hlen hbytes ⊢
    refine (h₂.refines.write h₂.fits hlen hbytes).mono (fun _ s₃ href₃ => ?_)
      fun _ _ hfalse => hfalse.elim
    exact ⟨h₂.offset_lt, h₂.price_le, href₃, fun hfalse => by cases hfalse⟩
  · have hload' : a.isStore = false := Bool.eq_false_iff.2 hload
    simp only [sat_load, a.top_in, if_true, hload', if_false, Bool.false_eq_true]
    refine hcheck.mono (fun _ s₂ h₂ => ?_) fun halt _ hh => hh
    have hstack : s₂.stackSpace = a.stackSpace := by rw [h₂.same]
    rw [hstack, low_eq_toNat (by have := h₂.offset_lt; omega)]
    refine (h₂.refines.read h₂.fits).mono (fun data s₃ ⟨href₃, hword⟩ => ?_) fun _ _ hfalse =>
      hfalse.elim
    rw [sat_store, if_pos a.top_in]
    refine ⟨h₂.offset_lt, h₂.price_le, href₃.stack _, fun _ => ?_⟩
    rw [ExecutionState.setSlot]
    simp only [if_true]
    exact hword

/-! ### A sequence of accesses -/

/-- After accesses that all succeeded, the state holds the bytes they left. -/
theorem Refines.runs (accesses : List Access) (h : Refines g m w s) (hg : isInt64 g)
    (halloc : ∀ k n, Env.allocates k n = true) :
    Sat (accesses.forM fun a => a.run) s
      (fun _ s' => Refines g (accesses.foldl (fun m a => a.contents m) m)
        (accesses.foldl (fun w a => max w (wordsFor a.offset)) w) s')
      fun _ _ => True := by
  induction accesses generalizing m w s with
  | nil => exact h
  | cons a accesses ih =>
      rw [List.forM_eq_forM, List.forM_cons, sat_bind]
      exact (h.run hg halloc a).mono (fun _ _ ⟨_, _, ha, _⟩ => ih ha) fun _ _ _ => trivial

omit [Env] in
/-- The offset and the price decide whether the next access fails. -/
theorem Refines.gas_lt_iff (h : Refines g m w s) (w' : Nat) :
    s.gasLeft < memoryPrice w' - memoryPrice w ↔ g < memoryPrice w' := by
  have hgas := h.gas
  omega

/-- `MLOAD` and `MSTORE`, in any order and with any operands, work on an array of bytes that is zero
at the start: after accesses that succeeded, the memory holds the bytes that they left, in as many
words as they touched, and the price of these words is paid. The next access fails when its offset
is above `2 ^ 32 - 1` or the gas does not suffice; otherwise it succeeds, and an `MLOAD` leaves the
number that the bytes hold. -/
theorem mload_mstore_refine (halloc : ∀ k n, Env.allocates k n = true) {s s' : ExecutionState}
    (hinit : s.memory.Initialised) (hgas : 0 ≤ s.gasLeft) (hint : isInt64 s.gasLeft)
    (accesses : List Access) (hrun : (accesses.forM fun a => a.run) s = .ok ⟨⟩ s') :
    Refines s.gasLeft (contentsAfter accesses) (wordsAfter accesses) s' ∧
      ∀ a : Access,
        let cost := memoryPrice (max (wordsAfter accesses) (wordsFor a.offset)) -
          memoryPrice (wordsAfter accesses)
        (2 ^ 32 - 1 < a.offset ∨ s'.gasLeft < cost →
          ∃ s'', a.run s' = .error (.ret .outOfGas) s'') ∧
        (¬ (2 ^ 32 - 1 < a.offset ∨ s'.gasLeft < cost) →
          ∃ s'', a.run s' = .ok ⟨⟩ s'' ∧ (a.isStore = false →
            (s''.stackSpace a.top).toNat = (contentsAfter accesses).readWord a.offset)) := by
  -- The run lemma: the refinement holds behind every list of accesses.
  have href : Refines s.gasLeft (contentsAfter accesses) (wordsAfter accesses) s' :=
    ((refines_init hinit hgas).runs accesses hint halloc).of_ok hrun
  refine ⟨href, fun a => ?_⟩
  simp only
  rw [href.gas_lt_iff]
  -- The next access, by cases of how it ends.
  have hnext := href.run hint halloc a
  cases hres : a.run s' with
  | ok _ s'' =>
      obtain ⟨hlt, hprice, -, hload⟩ := hnext.of_ok hres
      exact ⟨fun hfail => by omega, fun _ => ⟨s'', rfl, hload⟩⟩
  | error halt s'' =>
      obtain ⟨rfl, hfail⟩ := hnext.of_error hres
      exact ⟨fun _ => ⟨s'', rfl⟩, fun hok => by omega⟩

end

/-- The number 7 is stored at the offset 0, where it is read again. -/
theorem mload_mstore_refine_seven :
    let _ : Env := Env.zeroed
    let stackSpace : Slot → Uint256 := fun p => if p = 0 then .ofU64 7 else .zero
    let store : Access := ⟨true, stackSpace, 1, by decide, by decide⟩
    let load : Access := ⟨false, stackSpace, 1, by decide, by decide⟩
    let s := executionStateInitV { (default : Message) with gas := 100 } .london
      (mockedHostInit default) []
    ∃ s' s'', [store].forM (fun a => a.run) s = .ok ⟨⟩ s' ∧ load.run s' = .ok ⟨⟩ s'' ∧
      (s''.stackSpace 1).toNat = 7 := by
  intro _ stackSpace store load s
  have halloc : ∀ k n, Env.allocates k n = true := fun _ _ => rfl
  have hinit : s.memory.Initialised := ⟨rfl, Option.some_ne_none _, rfl, rfl⟩
  have hgas : s.gasLeft = 100 := rfl
  have hnonneg : 0 ≤ s.gasLeft := by rw [hgas]; decide
  have hint : isInt64 s.gasLeft := by rw [hgas]; exact ⟨by decide, by decide⟩
  obtain ⟨-, hfirst⟩ := mload_mstore_refine halloc hinit hnonneg hint [] rfl
  obtain ⟨s', hstore, -⟩ := (hfirst store).2 (by rw [hgas]; decide)
  have hrun : [store].forM (fun a => a.run) s = .ok ⟨⟩ s' := by
    show (store.run >>= fun _ => (pure PUnit.unit : Core PUnit)) s = _
    rw [bind_pure]
    exact hstore
  obtain ⟨href, hnext⟩ := mload_mstore_refine halloc hinit hnonneg hint [store] hrun
  obtain ⟨s'', hload, hword⟩ := (hnext load).2 (by rw [href.gas, hgas]; decide)
  refine ⟨s', s'', hrun, hload, (hword rfl).trans ?_⟩
  have hvalue : store.value = 7 := by decide
  have hoffset : store.offset = 0 := by decide
  have hcontents : contentsAfter [store] = Contents.zero.writeWord store.offset store.value :=
    (contentsAfter_concat [] store).trans (if_pos rfl)
  rw [hcontents, hvalue, hoffset, show load.offset = 0 from hoffset]
  exact Contents.readWord_writeWord Contents.zero 0 (by decide)

end TscVee
