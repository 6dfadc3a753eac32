import TscVee.Proofs.CoreEffects
import TscVee.Proofs.MemoryGrowth

/-!
# `TscVee.Proofs.MemorySound`: the memory between two instructions

`Memory.Sound` says that the size is a multiple of 32 below `2 ^ 37`, and that a memory with bytes
has a data pointer. `prim_sound` says that the parts of instruction implementations keep it, and
`Has.sound` that the implementations do.
-/

set_option autoImplicit false

namespace TscVee

open TscVee.Core Lib

/-- The memory as `Memory_init` and `Memory_grow` leave it. -/
structure Memory.Sound (memory : Memory) : Prop where
  words : memory.mSize % 32 = 0
  bound : memory.mSize < 2 ^ 37
  data : memory.mSize ≠ 0 → memory.mData ≠ none

/-- The contract of a sound memory. -/
def soundContract : Contract Halt ExecutionState :=
  .keeps (fun s => s.memory.Sound) fun h s' => ∀ status, h = .ret status → s'.memory.Sound

section
variable {α : Type} {s : ExecutionState}

/-- Nothing is asked of a fault. -/
theorem soundContract_fault (f : Fault) (s s' : ExecutionState) :
    soundContract.err (.fault f) s s' := fun _ h => Halt.noConfusion h

/-- A program whose ends have the memory of its start. -/
theorem soundContract_of_same {x : Core α}
    (h : ∀ s, Sat x s (fun _ s' => s'.memory = s.memory) fun h s' =>
      ∀ status, h = .ret status → s'.memory = s.memory) :
    soundContract.Holds x fun _ => True := by
  intro s hs
  have hsound : s.memory.Sound := hs
  refine (h s).mono (fun _ s' heq => ⟨trivial, ?_, trivial⟩) fun e s' heq status hstatus => ?_
  · show s'.memory.Sound
    rwa [heq]
  · rwa [heq status hstatus]

/-- An access records its range and leaves a sound memory, also with other bytes. -/
theorem sat_access_sound (hs : s.memory.Sound) (offset len : Nat) :
    Sat (access offset len) s
      (fun _ s' => s'.memory.Sound ∧ ∀ data, (s'.setData (some data)).memory.Sound)
      fun h s' => soundContract.err h s s' := by
  rw [sat_access]
  split
  · exact soundContract_fault _ _ _
  · split
    · exact ⟨hs, fun data => ⟨hs.words, hs.bound, fun _ => by simp [ExecutionState.setData]⟩⟩
    · exact soundContract_fault _ _ _

variable [Env]

/-- `grow_memory` ends with the same memory or with a sound one, or in a fault. -/
theorem sat_growMemory_sound (newSize : Nat) :
    Sat (growMemory newSize) s (fun _ s' => s'.memory = s.memory ∨ s'.memory.Sound)
      fun h _ => ∀ status, h ≠ .ret status := by
  unfold growMemory
  simp only [sat_bind, sat_read, sat_memoryCost, sat_subGas', sat_ite, sat_pure]
  split
  case isFalse => exact fun _ => Halt.noConfusion
  case isTrue hcost =>
  -- The square of the words fits an `int64_t`, which bounds the new size.
  have hwords := lt_of_square hcost.1
  split
  case isFalse => exact fun _ => Halt.noConfusion
  split
  case isFalse => exact fun _ => Halt.noConfusion
  -- The gas does not suffice, or the memory is grown.
  refine ⟨fun _ => Or.inl trivial, fun _ => ?_⟩
  unfold memoryGrow memoryAllocateCapacity
  simp only [sat_bind, sat_log, sat_read, sat_ite, sat_fault, sat_modify, sat_nextFresh]
  refine ⟨fun _ _ => Halt.noConfusion, fun h32 => ⟨fun _ _ => Halt.noConfusion,
    fun _ => ⟨fun _ => ?_, fun _ => ?_⟩⟩⟩
  all_goals
    split
    · exact fun _ => Halt.noConfusion
    · exact Or.inr ⟨not_not.1 h32, by simp only; omega, fun _ => by simp⟩

/-- The memory may have grown, its price is paid, and it reads as before, and as zero where it is
new. -/
structure Paid (s s' : ExecutionState) : Prop where
  same : SameButMemory s s'
  gas : s'.gasLeft = s.gasLeft - (memoryPrice (s'.memory.mSize / 32) -
    memoryPrice (s.memory.mSize / 32))
  data : ∀ data, s.memory.mData = some data → ∃ data', s'.memory.mData = some data' ∧
    ∀ i, i < s'.memory.mSize → data' i = if i < s.memory.mSize then data i else 0
  zero : ∀ data', s'.memory.mData = some data' → ∀ i, s.memory.mSize ≤ i → i < s'.memory.mSize →
    data' i = 0

omit [Env] in
/-- Nothing grows. -/
theorem Paid.of_trace (s : ExecutionState) (trace : List Event) :
    Paid s { s with trace := trace } :=
  ⟨rfl, by simp, fun data hdata => ⟨data, hdata, fun _ hi => (if_pos hi).symm⟩,
    fun _ _ _ hle hlt => absurd hlt (Nat.not_lt.2 hle)⟩

omit [Env] in
/-- The trace of the state before does not matter. -/
theorem Paid.behind {s' : ExecutionState} {trace : List Event}
    (h : Paid { s with trace := trace } s') : Paid s s' := ⟨h.same, h.gas, h.data, h.zero⟩

/-- What a reallocation leaves. -/
theorem sat_memoryGrow_grown (s : ExecutionState) (newSize : Nat) :
    Sat (memoryGrow newSize) s (fun _ s' => Grown s s' newSize) fun _ _ => True := by
  by_cases h32 : newSize % 32 = 0
  · by_cases hlarger : s.memory.mSize < newSize
    · exact (sat_memoryGrow_exact s h32 hlarger).mono (fun _ _ h => h.2) fun _ _ _ => trivial
    · unfold memoryGrow
      simp only [sat_bind, sat_read, sat_ite, sat_fault]
      exact ⟨fun _ => trivial, fun _ => ⟨fun _ => trivial, fun h => absurd (not_not.1 h) hlarger⟩⟩
  · unfold memoryGrow
    simp only [sat_bind, sat_read, sat_ite, sat_fault]
    exact ⟨fun _ => trivial, fun h => absurd (not_not.1 h) h32⟩

/-- `grow_memory` charges the price of what it adds, also where a sum has wrapped. -/
theorem sat_growMemory_paid (s : ExecutionState) (newSize : Nat) :
    Sat (growMemory newSize) s
      (fun grown s' => grown = true → Paid s s' ∧ s'.memory.mSize = numWords newSize * 32)
      fun _ _ => True := by
  unfold growMemory
  simp only [sat_bind, sat_read, sat_memoryCost, sat_subGas', sat_ite, sat_pure]
  split
  case isFalse => trivial
  split
  case isFalse => trivial
  split
  case isFalse => trivial
  refine ⟨fun _ h => absurd h (by decide), fun _ => ?_⟩
  refine (sat_memoryGrow_grown _ _).mono (fun _ s' hgrown => ?_) fun _ _ _ => trivial
  rw [sat_log]
  intro _
  -- The new bytes are zero and the old ones are kept.
  obtain ⟨data', hdata', hzero, hkeep⟩ := hgrown.data
  have hsize := hgrown.size
  have hsame := hgrown.same
  refine ⟨⟨?_, ?_, fun data hdata => ⟨data', hdata', fun i hi => ?_⟩, fun _ heq i hle hlt => ?_⟩,
    hsize⟩
  · rw [SameButMemory, hsame]
  · simp only [hsize, Nat.mul_div_cancel _ (show 0 < 32 by decide)]
    rw [hsame]
  · simp only [hsize] at hi
    split
    case isTrue hold => exact hkeep data hdata i hold
    case isFalse hnew => exact hzero i (Nat.le_of_not_lt hnew) hi
  · obtain rfl := Option.some.inj (heq.symm.trans hdata')
    exact hzero i hle (hsize ▸ hlt)

/-- The size of the memory behind a check up to the sum of offset and size, as `uint64_t`. -/
def sizeBehind (s : ExecutionState) (offset size : Uint256) : Nat :=
  let newSize := (offset.low + size.low) % 2 ^ 64
  if zero256 size = false ∧ newSize > s.memory.mSize then numWords newSize * 32
  else s.memory.mSize

/-- A passed check leaves the memory that is paid for, of the size `sizeBehind`. -/
theorem sat_requireMemoryU256_paid (s : ExecutionState) (offset size : Uint256) :
    Sat (requireMemoryU256 offset size) s
      (fun _ s' => Paid s s' ∧ s'.memory.mSize = sizeBehind s offset size) fun _ _ => True := by
  have hsame : Paid s s := Paid.of_trace s s.trace
  unfold requireMemoryU256 checkMemoryU256 checkMemoryU64 sizeBehind
  simp only [sat_bind, sat_ite, sat_pure, sat_read, sat_log, sat_ret]
  refine ⟨fun hzero => ⟨fun _ => trivial, fun _ => ⟨hsame, ?_⟩⟩, fun hne => ⟨fun _ =>
    ⟨fun _ => trivial, fun h => absurd rfl h⟩, fun _ => ⟨fun _ => ⟨fun _ => trivial,
    fun h => absurd rfl h⟩, fun _ => ⟨fun hgrow => ?_,
    fun hfits => ⟨fun _ => trivial, fun _ => ⟨Paid.of_trace s _, ?_⟩⟩⟩⟩⟩⟩
  · simp [hzero]
  · rw [if_pos ⟨Bool.eq_false_iff.2 hne, hgrow⟩]
    refine (sat_growMemory_paid _ _).mono (fun grown s' h => ⟨fun _ => trivial, fun hgrown => ?_⟩)
      fun _ _ h => h
    obtain ⟨hpaid, hsize⟩ := h (by simpa using hgrown)
    exact ⟨hpaid.behind, hsize⟩
  · rw [if_neg fun h => hfits h.2]

/-! ### Contracts that depend on the memory only -/

/-- A program whose ends have the memory of its start meets the contract. -/
def IgnoresRest (C : Contract Halt ExecutionState) : Prop :=
  ∀ {α : Type} {x : Core α}, (∀ s, Sat x s (fun _ s' => s'.memory = s.memory) fun h s' =>
    ∀ status, h = .ret status → s'.memory = s.memory) → C.Holds x fun _ => True

section
variable {C : Contract Halt ExecutionState} (hsame : IgnoresRest C)
  (hgrow : ∀ newSize, C.Holds (growMemory newSize) fun _ => True)

include hsame hgrow

/-- A contract that the growth keeps is kept by the check of a fixed size. -/
theorem holds_requireMemoryU64 (offset : Uint256) (size : Nat) :
    C.Holds (requireMemoryU64 offset size) fun _ => True := by
  have hlog : ∀ e, C.Holds (log e) fun _ => True := fun e => hsame fun _ => rfl
  have hread : C.Holds (read (·.memory)) fun _ => True := hsame fun _ => rfl
  have hcheck : C.Holds (checkMemoryU64 offset size) fun _ => True := by
    unfold checkMemoryU64
    split
    · exact .pure trivial
    · refine (hlog _).bind fun _ _ => hread.bind fun memory _ => ?_
      split
      · exact hgrow _
      · exact (hlog _).bind fun _ _ => .pure trivial
  unfold requireMemoryU64
  refine hcheck.bind fun ok _ => hsame fun s => ?_
  simp only [sat_ite, sat_ret, sat_pure]
  exact ⟨fun _ _ _ => trivial, fun _ => trivial⟩

/-- And by the check of a size in a word. -/
theorem holds_requireMemoryU256 (offset size : Uint256) :
    C.Holds (requireMemoryU256 offset size) fun _ => True := by
  have hu64 := holds_requireMemoryU64 hsame hgrow offset size.low
  unfold requireMemoryU64 at hu64
  have hret : C.Holds (ret .outOfGas : Core Unit) fun _ => True := hsame fun _ _ _ => rfl
  unfold requireMemoryU256 checkMemoryU256
  by_cases hzero : zero256 size = true
  · simpa [hzero] using Contract.Holds.pure trivial
  · by_cases hlarge : offsetTooLarge offset = true
    · simpa [hzero, hlarge] using hret
    · simpa [hzero, hlarge] using hu64

/-- The parts of an implementation meet a contract that depends on the memory only. -/
theorem prim_ofMemory
    (hwrite : ∀ offset len s, C.inv s → Sat (access offset len) s
      (fun _ s' => ∀ data, C.inv (s'.setData (some data)) ∧ C.rel s (s'.setData (some data)))
      fun h s' => C.err h s s')
    {e : Effects} {x : Core α} {Q : α → Prop} (h : Prim e α x Q) : C.Holds x fun _ => True := by
  -- An access changes the trace only.
  have haccess : ∀ offset len s, Sat (access offset len) s (fun _ s' => s'.memory = s.memory)
      fun h s' => ∀ status, h = .ret status → s'.memory = s.memory := by
    intro offset len s
    rw [sat_access]
    split
    · exact fun _ _ => rfl
    · split
      · rfl
      · exact fun _ _ => rfl
  cases h with
  | read | ret | nextFresh | dropReturnData | setOutputSize | setOutputOffset | logAccess =>
      exact hsame fun s => by first | rfl | exact fun _ _ => rfl
  | fault f => exact hsame fun s _ _ => rfl
  | load p | store p =>
      refine hsame fun s => ?_
      simp only [sat_load, sat_store]
      split <;> simp [ExecutionState.setSlot]
  | ask op =>
      refine hsame fun s => ?_
      rw [sat_ask]
      exact (sat_trivial _ _).mono (fun _ _ _ => rfl) fun _ _ _ _ _ => rfl
  | refuseStatic =>
      refine hsame fun s => ?_
      rw [sat_refuseStatic]
      split <;> simp
  | int64 | chargeGas | subGas | setGas =>
      refine hsame fun s => ?_
      simp only [sat_int64, sat_chargeGas, sat_subGas', sat_setGas]
      repeat' split
      all_goals simp
  -- The only primitives that touch the memory are the checks and the writes.
  | requireMemoryU64 offset size => exact holds_requireMemoryU64 hsame hgrow offset size
  | requireMemoryU256 offset size => exact holds_requireMemoryU256 hsame hgrow offset size
  | memoryPtr offset len =>
      refine hsame fun s => ?_
      rw [sat_memoryPtr]
      rfl
  | readMemory offset len =>
      refine hsame fun s => ?_
      rw [sat_readMemory]
      split
      · rfl
      · exact haccess offset len s
  | writeMemory offset bytes =>
      intro s hs
      rw [sat_writeMemory]
      split
      · exact ⟨trivial, hs, C.refl s⟩
      · exact (hwrite offset _ s hs).mono (fun _ _ h => ⟨trivial, h _⟩) fun _ _ h => h
  | clearMemory offset len =>
      intro s hs
      rw [sat_clearMemory]
      split
      · exact ⟨trivial, hs, C.refl s⟩
      · exact (hwrite offset len s hs).mono (fun _ _ h => ⟨trivial, h _⟩) fun _ _ h => h

end

/-- The growth keeps a sound memory. -/
theorem sound_growMemory (newSize : Nat) :
    soundContract.Holds (growMemory newSize) fun _ => True := fun _ hs =>
  (sat_growMemory_sound newSize).mono
    (fun _ s' h => ⟨trivial, h.elim (fun heq => show s'.memory.Sound from heq ▸ hs) id, trivial⟩)
    fun _ _ h status hstatus => absurd hstatus (h status)

/-- The check keeps a sound memory. -/
theorem sat_requireMemoryU256_sound (hs : s.memory.Sound) (offset size : Uint256) :
    Sat (requireMemoryU256 offset size) s (fun _ s' => s'.memory.Sound)
      fun h s' => soundContract.err h s s' :=
  (holds_requireMemoryU256 soundContract_of_same sound_growMemory offset size s hs).mono
    (fun _ _ h => h.2.1) fun _ _ h => h

/-- The parts of an implementation keep the memory sound. -/
theorem prim_sound {e : Effects} {x : Core α} {Q : α → Prop} (h : Prim e α x Q) :
    soundContract.Holds x fun _ => True := by
  refine prim_ofMemory soundContract_of_same sound_growMemory (fun offset len s hs => ?_) h
  exact (sat_access_sound hs offset len).mono (fun _ _ h data => ⟨h.2 data, trivial⟩) fun _ _ h => h

/-- A program that is put together from parts keeps the memory sound. -/
theorem Has.sound {e : Effects} {x : Core α} {Q : α → Prop} (h : Has e x Q) (hmsg : s.msg = e.msg)
    (hs : s.memory.Sound) :
    Sat x s (fun _ s' => s'.memory.Sound)
      fun h s' => ∀ status, h = .ret status → s'.memory.Sound := by
  have hboth := Built.holds (C := (frameContract e).both soundContract)
    (fun _ _ _ h => (prim_frame h).both (prim_sound h)) h
  exact (hboth s ⟨hmsg, hs⟩).mono (fun _ _ h => h.2.1.2) fun _ _ h => h.2

/-! ### A valid memory -/

/-- A memory of the program: whole words, a size of 64 bits, and a pointer to its bytes. -/
structure Memory.Valid (memory : Memory) : Prop where
  words : memory.mSize % 32 = 0
  bound : memory.mSize < 2 ^ 64
  data : memory.mSize ≠ 0 → memory.mData ≠ none

omit [Env] in
/-- A sound memory is valid. -/
theorem Memory.Sound.valid {memory : Memory} (h : memory.Sound) : memory.Valid :=
  ⟨h.words, h.bound.trans (by decide), h.data⟩

/-- Both checks keep a valid memory. -/
theorem sat_requireMemory_valid (hs : s.memory.Valid) (offset size : Uint256) :
    Sat (requireMemoryU256 offset size) s (fun _ s' => s'.memory.Valid) (fun _ _ => True) ∧
      ∀ n, Sat (requireMemoryU64 offset n) s (fun _ s' => s'.memory.Valid) fun _ _ => True := by
  let C : Contract Halt ExecutionState := .keeps (fun s => s.memory.Valid) fun _ _ => True
  have hsame : IgnoresRest C := fun h s hs => (h s).mono
    (fun _ s' heq => ⟨trivial, show s'.memory.Valid from heq ▸ hs, trivial⟩) fun _ _ _ => trivial
  have hgrow : ∀ newSize, C.Holds (growMemory newSize) fun _ => True := fun newSize s hs =>
    (sat_growMemory_sound newSize).mono (fun _ s' h => ⟨trivial,
      h.elim (fun heq => show s'.memory.Valid from heq ▸ hs) fun h => h.valid, trivial⟩)
      fun _ _ _ => trivial
  exact ⟨(holds_requireMemoryU256 hsame hgrow offset size s hs).mono (fun _ _ h => h.2.1)
    fun _ _ h => h, fun n => (holds_requireMemoryU64 hsame hgrow offset n s hs).mono
    (fun _ _ h => h.2.1) fun _ _ h => h⟩

end

end TscVee
