import TscVee.Instructions
import TscVee.Lib.Program

/-!
# `TscVee.Proofs.CoreRules`: what the parts of instruction implementations do

One rule for each operation that the instruction implementations are put together from, as an
equivalence on `Sat`, and the rules for the memory checks:

* `sat_memoryGrow`, `sat_growMemory`: a memory check that has to grow the memory charges the
  difference of the costs, and asserts that the memory gets larger.
-/

set_option autoImplicit false

namespace TscVee

open TscVee.Core Lib

section
variable {α : Type} {s : ExecutionState} {E : Halt → ExecutionState → Prop}

/-- An early return. -/
theorem sat_ret (status : StatusCode) {Q : α → ExecutionState → Prop} :
    Sat (Core.ret status : Core α) s Q E ↔ E (.ret status) s := Iff.rfl

/-- A fault. -/
theorem sat_fault (f : Fault) {Q : α → ExecutionState → Prop} :
    Sat (Core.fault f : Core α) s Q E ↔ E (.fault f) s := Iff.rfl

/-- A field that is read. -/
theorem sat_read (f : ExecutionState → α) {Q : α → ExecutionState → Prop} :
    Sat (Core.read f) s Q E ↔ Q (f s) s := Iff.rfl

/-- An event that is recorded. -/
theorem sat_log (e : Event) {Q : Unit → ExecutionState → Prop} :
    Sat (Core.log e) s Q E ↔ Q () { s with trace := s.trace ++ [e] } := Iff.rfl

/-- An address for a new object. -/
theorem sat_nextFresh {Q : Nat → ExecutionState → Prop} :
    Sat nextFresh s Q E ↔ Q s.fresh { s with fresh := s.fresh + 1 } := Iff.rfl

/-- A signed sum or product outside of the range of `int64_t` is undefined. -/
theorem sat_int64 (x : Int) {Q : Int → ExecutionState → Prop} :
    Sat (int64 x) s Q E ↔ if isInt64 x then Q x s else E (.fault .signedOverflow) s := by
  unfold int64
  split <;> rfl

/-- The gas counter is set. -/
theorem sat_setGas (gas : Int) {Q : Unit → ExecutionState → Prop} :
    Sat (setGas gas) s Q E ↔ Q () { s with gasLeft := gas } := Iff.rfl

/-- Gas is taken, as long as the difference is an `int64_t`. -/
theorem sat_subGas' (cost : Int) {Q : Unit → ExecutionState → Prop} :
    Sat (Core.subGas cost) s Q E ↔
      if isInt64 (s.gasLeft - cost) then Q () { s with gasLeft := s.gasLeft - cost }
      else E (.fault .signedOverflow) s := by
  unfold Core.subGas
  simp only [sat_bind, sat_read, sat_int64, sat_setGas]

/-- A charge: the difference is stored also when it is negative, and the instruction then returns
early. -/
theorem sat_chargeGas (cost : Int) {Q : Unit → ExecutionState → Prop} :
    Sat (chargeGas cost) s Q E ↔
      if isInt64 (s.gasLeft - cost) then
        if s.gasLeft - cost < 0 then E (.ret .outOfGas) { s with gasLeft := s.gasLeft - cost }
        else Q () { s with gasLeft := s.gasLeft - cost }
      else E (.fault .signedOverflow) s := by
  unfold chargeGas
  simp only [sat_bind, sat_subGas', sat_read, sat_ite, sat_ret, sat_pure]
  split
  · split <;> simp [*]
  · rfl

/-- A word is loaded from the stack space only. -/
theorem sat_load (p : Slot) {Q : Uint256 → ExecutionState → Prop} :
    Sat (load p) s Q E ↔
      if inStackSpace p then Q (s.stackSpace p) s else E (.fault .stackOutOfBounds) s := by
  unfold load
  simp only [sat_bind, sat_ite, sat_fault, sat_read]
  by_cases h : inStackSpace p <;> simp [h]

/-- The stack space with the word at a slot replaced. -/
def ExecutionState.setSlot (s : ExecutionState) (p : Slot) (value : Uint256) : ExecutionState :=
  { s with stackSpace := fun q => if q = p then value else s.stackSpace q }

/-- A word is stored to the stack space only. -/
theorem sat_store (p : Slot) (value : Uint256) {Q : Unit → ExecutionState → Prop} :
    Sat (store p value) s Q E ↔
      if inStackSpace p then Q () (s.setSlot p value) else E (.fault .stackOutOfBounds) s := by
  unfold store ExecutionState.setSlot
  simp only [sat_bind, sat_ite, sat_fault, sat_modify]
  by_cases h : inStackSpace p <;> simp [h]

/-- The host after a request, whether it is served or not. -/
def HostOp.after (op : HostOp) (host : MockedHost) : MockedHost :=
  match op.serve host with
  | .ok _ host => host
  | .error _ host => host

/-- A request to the host is recorded next to what it does to the host. The answer is that of the
host. -/
theorem sat_ask (op : HostOp) {Q : op.Answer → ExecutionState → Prop} :
    Sat (ask op) s Q E ↔
      Sat op.serve s.hostCtx
        (fun a host => Q a { s with hostCtx := host, trace := s.trace ++ [.host op] })
        fun f host => E (.fault f) { s with hostCtx := host, trace := s.trace ++ [.host op] } := by
  unfold ask
  simp only [sat_bind, sat_log, sat_read]
  unfold Sat
  cases h : op.serve s.hostCtx <;> rfl

/-- In static mode the instruction returns early, before it changes anything. -/
theorem sat_refuseStatic {Q : Unit → ExecutionState → Prop} :
    Sat refuseStatic s Q E ↔
      if executionStateInStaticMode s then E (.ret .staticModeViolation) s else Q () s := by
  unfold refuseStatic
  simp only [sat_bind, sat_get, sat_ite, sat_ret, sat_pure]
  by_cases h : executionStateInStaticMode s = true <;> simp [h]

/-! ### EVM memory -/

/-- A range of EVM memory that is used is logged. -/
def ExecutionState.logAccess (s : ExecutionState) (offset len : Nat) : ExecutionState :=
  { s with trace := s.trace ++ [.memAccess offset len s.memory.mSize] }

/-- A range of EVM memory is recorded before it is tested, so that the record shows also an access
outside. -/
theorem sat_access (offset len : Nat) {Q : (Nat → Byte) → ExecutionState → Prop} :
    Sat (access offset len) s Q E ↔
      match s.memory.mData with
      | none => E (.fault .nullPointer) (s.logAccess offset len)
      | some data =>
        if offset + len ≤ s.memory.mSize then Q data (s.logAccess offset len)
        else E (.fault .memoryOutOfBounds) (s.logAccess offset len) := by
  unfold access ExecutionState.logAccess
  simp only [sat_bind, sat_read, sat_log]
  cases s.memory.mData with
  | none => rfl
  | some data => simp only; split <;> rfl

/-- An empty read is no access. -/
theorem sat_readMemory (offset len : Nat) {Q : List Byte → ExecutionState → Prop} :
    Sat (readMemory offset len) s Q E ↔
      if len = 0 then Q [] s
      else Sat (access offset len) s
        (fun data s' => Q ((List.range len).map fun i => data (offset + i)) s') E := by
  unfold readMemory
  simp only [sat_ite, sat_pure, sat_bind]
  by_cases h : len = 0 <;> simp [h]

/-- A write and a fill touch the data only. -/
def ExecutionState.setData (s : ExecutionState) (data : Option (Nat → Byte)) : ExecutionState :=
  { s with memory := { s.memory with mData := data } }

/-- A write replaces the bytes of its range. An empty write is no access. -/
theorem sat_writeMemory (offset : Nat) (bytes : List Byte) {Q : Unit → ExecutionState → Prop} :
    Sat (writeMemory offset bytes) s Q E ↔
      if bytes.isEmpty then Q () s
      else Sat (access offset bytes.length) s
        (fun data s' => Q () (s'.setData (some fun i =>
          if offset ≤ i ∧ i < offset + bytes.length then bytes.getD (i - offset) 0
          else data i))) E := by
  unfold writeMemory ExecutionState.setData
  simp only [sat_ite, sat_pure, sat_bind, sat_modify]
  by_cases h : bytes.isEmpty = true <;> simp [h]

/-- A range is filled with zeros. An empty one is no access. -/
theorem sat_clearMemory (offset len : Nat) {Q : Unit → ExecutionState → Prop} :
    Sat (clearMemory offset len) s Q E ↔
      if len = 0 then Q () s
      else Sat (access offset len) s
        (fun data s' => Q () (s'.setData (some fun i =>
          if offset ≤ i ∧ i < offset + len then 0 else data i))) E := by
  unfold clearMemory ExecutionState.setData
  simp only [sat_ite, sat_pure, sat_bind, sat_modify]
  by_cases h : len = 0 <;> simp [h]

/-- A pointer into EVM memory gives the bytes behind it, up to the size of the memory, and is no
access yet. -/
theorem sat_memoryPtr (offset len : Nat) {Q : Ptr → ExecutionState → Prop} :
    Sat (memoryPtr offset len) s Q E ↔
      Q (match s.memory.mData with
        | none => []
        | some data => (List.range (s.memory.mSize - offset)).map fun i => data (offset + i))
        (s.logAccess offset len) := by
  unfold memoryPtr ExecutionState.logAccess
  simp only [sat_bind, sat_read, sat_log]
  cases s.memory.mData <;> rfl

/-! ### Memory checks -/

/-- The two states differ in the gas counter, the memory, the trace and the counter of
undetermined contents only. -/
def SameButMemory (s s' : ExecutionState) : Prop :=
  s' = { s with
    gasLeft := s'.gasLeft, memory := s'.memory, trace := s'.trace, fresh := s'.fresh }

/-- The cost of a memory of `words` words. -/
def memoryPrice (words : Nat) : Int := 3 * (words : Int) + ((words * words : Nat) : Int) / 512

/-- The price of a memory is computed in `int64_t`, the square of the words included. -/
theorem sat_memoryCost (words : Nat) {Q : Int → ExecutionState → Prop} :
    Sat (memoryCost words) s Q E ↔
      if isInt64 ((words * words : Nat) : Int) ∧ isInt64 (memoryPrice words) then
        Q (memoryPrice words) s
      else E (.fault .signedOverflow) s := by
  unfold memoryCost memoryPrice
  simp only [sat_bind, sat_int64, Int.natCast_mul]
  by_cases h : isInt64 ((words : Int) * words) <;> simp [h]

/-- More memory costs more. -/
theorem memoryPrice_mono {m n : Nat} (h : m ≤ n) : memoryPrice m ≤ memoryPrice n := by
  have hsq : m * m ≤ n * n := Nat.mul_le_mul h h
  unfold memoryPrice
  omega

/-- A memory whose cost fits in 64 bits has fewer than `2 ^ 32` words. -/
theorem lt_of_square {words : Nat} (h : isInt64 ((words * words : Nat) : Int)) :
    words < 2 ^ 32 := by
  by_contra hge
  have : 2 ^ 32 * 2 ^ 32 ≤ words * words := Nat.mul_le_mul (by omega) (by omega)
  unfold isInt64 at h
  omega

/-- The trace has grown by events that are no requests to the host. -/
def Unasked (s s' : ExecutionState) : Prop :=
  ∃ events, s'.trace = s.trace ++ events ∧ ∀ op, Event.host op ∉ events

/-- A memory check has succeeded. -/
structure MemChecked (s s' : ExecutionState) : Prop where
  same : SameButMemory s s'
  cost : ∃ cost : Int, 0 ≤ cost ∧ s'.gasLeft = s.gasLeft - cost
  trace : Unasked s s'
  gas : 0 ≤ s.gasLeft → 0 ≤ s'.gasLeft
  size : s'.memory.mSize = s.memory.mSize ∨
    s.memory.mSize < s'.memory.mSize ∧ s'.memory.mSize < 2 ^ 37 ∧ s'.memory.mSize % 32 = 0

/-- A memory check has failed. -/
structure MemRefused (s s' : ExecutionState) : Prop where
  same : SameButMemory s s'
  trace : Unasked s s'
  size : s'.memory.mSize = s.memory.mSize

/-- Nothing has happened. -/
theorem Unasked.refl (s : ExecutionState) : Unasked s s := ⟨[], by simp, by simp⟩

section
variable {s' : ExecutionState} {offset size : Nat}

/-- The event that a check starts with, in front. -/
theorem Unasked.behind (h : Unasked { s with trace := s.trace ++ [.memRange offset size] } s') :
    Unasked s s' := by
  obtain ⟨events, htrace, hevents⟩ := h
  exact ⟨.memRange offset size :: events, by simpa using htrace, by simpa using hevents⟩

/-- The same for a check that succeeds. -/
theorem MemChecked.behind
    (h : MemChecked { s with trace := s.trace ++ [.memRange offset size] } s') : MemChecked s s' :=
  ⟨h.same, h.cost, h.trace.behind, h.gas, h.size⟩

/-- The same for a check that fails. -/
theorem MemRefused.behind
    (h : MemRefused { s with trace := s.trace ++ [.memRange offset size] } s') : MemRefused s s' :=
  ⟨h.same, h.trace.behind, h.size⟩

end

variable [Env]

/-- `Memory_grow` grows the memory to a larger multiple of 32, or fails. -/
theorem sat_memoryGrow (newSize : Nat) :
    Sat (memoryGrow newSize) s
      (fun _ s' => newSize % 32 = 0 ∧ s.memory.mSize < newSize ∧ s'.memory.mSize = newSize ∧
        s' = { s with memory := s'.memory, fresh := s'.fresh })
      fun h s' => (h = .fault .assertFailed ∨ h = .fault .nullPointer) ∧
        s'.memory.mSize = s.memory.mSize ∧
        s' = { s with memory := s'.memory, fresh := s'.fresh } := by
  unfold memoryGrow memoryAllocateCapacity
  simp only [sat_bind, sat_read, sat_ite, sat_fault, sat_modify, sat_nextFresh]
  refine ⟨fun _ => by simp, fun h32 => ⟨fun _ => by simp, fun hlarger => ⟨fun _ => ?_, fun _ => ?_⟩⟩⟩
  all_goals
    rw [not_not] at h32 hlarger
    split
    · exact ⟨Or.inr rfl, rfl, rfl⟩
    · exact ⟨h32, hlarger, rfl, rfl⟩

/-- `grow_memory`, called with more than the current size. -/
theorem sat_growMemory {newSize : Nat} (hsize : s.memory.mSize < newSize)
    (h64 : newSize < 2 ^ 64) :
    Sat (growMemory newSize) s
      (fun grown s' => match grown with
        | true => MemChecked s s' ∧ newSize ≤ s'.memory.mSize
        | false => MemRefused s s' ∧ s'.gasLeft < 0)
      fun h s' => MemRefused s s' ∧
        (h = .fault .signedOverflow ∨ h = .fault .assertFailed ∨ h = .fault .nullPointer) := by
  have hrefused : MemRefused s s := ⟨rfl, .refl s, rfl⟩
  -- The number of words wraps for the last 31 sizes only, and the memory does not grow then.
  have hcover : s.memory.mSize < numWords newSize * 32 → newSize ≤ numWords newSize * 32 := by
    unfold numWords
    omega
  clear h64
  unfold growMemory
  simp only [sat_bind, sat_read]
  simp only [sat_memoryCost, sat_subGas', sat_ite, sat_pure]
  split
  case isFalse => exact ⟨hrefused, Or.inl trivial⟩
  case isTrue hnew =>
  have hwords := lt_of_square hnew.1
  generalize hcost : memoryPrice (numWords newSize) - memoryPrice (s.memory.mSize / 32) = cost
  split
  case isFalse => exact ⟨hrefused, Or.inl trivial⟩
  split
  case isFalse => exact ⟨hrefused, Or.inl trivial⟩
  refine ⟨fun hneg => ⟨⟨rfl, .refl s, rfl⟩, hneg⟩, fun hgas => ?_⟩
  simp only [sat_bind, sat_log, sat_pure]
  refine (sat_memoryGrow _).mono (fun _ s' ⟨_, hlarger, hsize', hs'⟩ => ?_)
    fun h s' ⟨hh, hsize', hs'⟩ => ?_
  · -- The memory has grown, so the cost is not negative.
    have hle : s.memory.mSize / 32 ≤ numWords newSize := by
      simp only at hlarger
      omega
    have hmono := memoryPrice_mono hle
    rw [hs']
    simp only at hsize' ⊢
    refine ⟨⟨rfl, ⟨cost, by omega, rfl⟩, ⟨_, rfl, by simp⟩, fun _ => ?_, Or.inr ?_⟩, ?_⟩
    · simp only
      omega
    · simp only [hsize'] at hlarger ⊢
      omega
    · simp only [hsize']
      exact hcover hlarger
  · refine ⟨⟨?_, ?_, hsize'⟩, Or.inr hh⟩
    · rw [hs']
      rfl
    · exact ⟨[], by rw [hs', List.append_nil], by simp⟩

omit [Env] in
/-- A check may fail before it does anything. -/
theorem MemRefused.refl (s : ExecutionState) : MemRefused s s := ⟨rfl, .refl s, rfl⟩

omit [Env] in
/-- The lowest limb of a word has 64 bits. -/
theorem low_lt (x : Uint256) : x.low < 2 ^ 64 := x.lower.lower.isLt

/-- The two faults that a memory check can meet besides an overflow of the gas counter. -/
def Fault.ofMemory (f : Fault) : Prop :=
  f = .signedOverflow ∨ f = .assertFailed ∨ f = .nullPointer

/-- `check_memory_u64`: the memory reaches up to the sum of offset and size, as `uint64_t`. -/
theorem sat_checkMemoryU64 (offset : Uint256) (size : Nat) :
    Sat (checkMemoryU64 offset size) s
      (fun ok s' => match ok with
        | true => MemChecked s s' ∧ offsetTooLarge offset = false ∧
            (offset.low + size) % 2 ^ 64 ≤ s'.memory.mSize
        | false => MemRefused s s' ∧ (s'.gasLeft = s.gasLeft ∨ s'.gasLeft < 0))
      fun h s' => MemRefused s s' ∧ ∃ f : Fault, h = .fault f ∧ f.ofMemory := by
  unfold checkMemoryU64
  simp only [sat_bind, sat_ite, sat_pure, sat_read, sat_log]
  -- A large offset, a range past the end, a range inside.
  refine ⟨fun _ => ⟨MemRefused.refl s, Or.inl trivial⟩, fun hoffset =>
    ⟨fun hgrow => ?_, fun hfits => ?_⟩⟩
  · have hgrow : ({ s with trace := s.trace ++ [.memRange offset.low size] } :
        ExecutionState).memory.mSize < (offset.low + size) % 2 ^ 64 := hgrow
    refine (sat_growMemory hgrow (Nat.mod_lt _ (by decide))).mono (fun ok s' h => ?_)
      fun h s' ⟨hrefused, hf⟩ => ?_
    · cases ok with
      | true => exact ⟨h.1.behind, Bool.eq_false_iff.2 hoffset, h.2⟩
      | false => exact ⟨h.1.behind, Or.inr h.2⟩
    · replace hrefused := hrefused.behind
      rcases hf with rfl | rfl | rfl
      · exact ⟨hrefused, _, rfl, Or.inl rfl⟩
      · exact ⟨hrefused, _, rfl, Or.inr (Or.inl rfl)⟩
      · exact ⟨hrefused, _, rfl, Or.inr (Or.inr rfl)⟩
  · refine ⟨⟨rfl, ⟨0, le_refl _, by simp⟩, ⟨_, List.append_assoc _ _ _, by simp⟩, id, Or.inl rfl⟩,
      Bool.eq_false_iff.2 hoffset, ?_⟩
    exact Nat.le_of_not_lt hfits

/-- `if (!check_memory_u64(...)) return EVMC_OUT_OF_GAS;` -/
theorem sat_requireMemoryU64 (offset : Uint256) (size : Nat) :
    Sat (requireMemoryU64 offset size) s
      (fun _ s' => MemChecked s s' ∧ offsetTooLarge offset = false ∧
        (offset.low + size) % 2 ^ 64 ≤ s'.memory.mSize)
      fun h s' => MemRefused s s' ∧
        ((h = .ret .outOfGas ∧ (s'.gasLeft = s.gasLeft ∨ s'.gasLeft < 0)) ∨
          ∃ f : Fault, h = .fault f ∧ f.ofMemory) := by
  unfold requireMemoryU64
  rw [sat_bind]
  refine (sat_checkMemoryU64 offset size).mono (fun ok s' h => ?_) fun h s' hh => ⟨hh.1, Or.inr hh.2⟩
  cases ok with
  | true => exact h
  | false => exact ⟨h.1, Or.inl ⟨rfl, h.2⟩⟩

/-- `if (!check_memory_u256(...)) return EVMC_OUT_OF_GAS;`. Nothing is checked for the size 0, and
of another size the low limb. -/
theorem sat_requireMemoryU256 (offset size : Uint256) :
    Sat (requireMemoryU256 offset size) s
      (fun _ s' => (zero256 size = true ∧ s' = s) ∨
        (zero256 size = false ∧ MemChecked s s' ∧ offsetTooLarge offset = false ∧
          (offset.low + size.low) % 2 ^ 64 ≤ s'.memory.mSize))
      fun h s' => MemRefused s s' ∧
        ((h = .ret .outOfGas ∧ (s'.gasLeft = s.gasLeft ∨ s'.gasLeft < 0)) ∨
          ∃ f : Fault, h = .fault f ∧ f.ofMemory) := by
  unfold requireMemoryU256 checkMemoryU256
  rw [sat_bind, sat_ite]
  refine ⟨fun hzero => Or.inl ⟨hzero, rfl⟩, fun hzero => ?_⟩
  rw [sat_ite]
  refine ⟨fun _ => ?_, fun _ => ?_⟩
  · exact ⟨MemRefused.refl s, Or.inl ⟨rfl, Or.inl rfl⟩⟩
  · refine (sat_checkMemoryU64 offset size.low).mono (fun ok s' h => ?_)
      fun h s' hh => ⟨hh.1, Or.inr hh.2⟩
    cases ok with
    | true => exact Or.inr ⟨Bool.eq_false_iff.2 hzero, h⟩
    | false => exact ⟨h.1, Or.inl ⟨rfl, h.2⟩⟩

end

end TscVee
